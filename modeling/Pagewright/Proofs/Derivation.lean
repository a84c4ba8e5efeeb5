import Pagewright.Node.Parse
import Pagewright.Proofs.Braces

set_option autoImplicit false

namespace Pagewright

/-- A value may be quoted, a name may not. -/
def Lexeme.Values (lexeme : Lexeme) (text : String) : Prop :=
  lexeme = .word text ∨ lexeme = .literal text

/-- What begins no sentence, and how a raw node keeps it. -/
inductive Unknown : Lexeme → String → Prop
  | word {text : String} (foreign : ∀ keyword : Keyword, keyword.spelling ≠ text) :
      Unknown (.word text) text
  | literal {text : String} : Unknown (.literal text) ("\"" ++ text ++ "\"")

/-- The word that declares a field. -/
def Field.token (field : Field) : Token := ⟨.word field.name, field.pos⟩

/-- The sentences without a block of nodes: their tokens, the token behind them and their node. Only
an update without a source depends on the token behind it. -/
inductive Phrase (mode : Mode) : List Token → Option Token → Node → Prop
  | app {pos : Position} {token : Token} {next : Option Token} {name : String}
      (values : token.lexeme.Values name) :
      Phrase mode [⟨.word "app", pos⟩, token] next (.app pos name)
  | text {pos : Position} {token : Token} {next : Option Token} {value : String}
      (values : token.lexeme.Values value) :
      Phrase mode [⟨.word "text", pos⟩, token] next (.text pos value)
  | input {pos kindPos idPos : Position} {next : Option Token} {kind id : String} :
      Phrase mode [⟨.word "input", pos⟩, ⟨.word kind, kindPos⟩, ⟨.word id, idPos⟩] next
        (.input pos kind id)
  | button {pos handlerPos : Position} {token : Token} {next : Option Token}
      {label handler : String} (values : token.lexeme.Values label) :
      Phrase mode [⟨.word "button", pos⟩, token, ⟨.word handler, handlerPos⟩] next
        (.button pos label handler)
  | list {pos tablePos : Position} {next : Option Token} {table : String} :
      Phrase mode [⟨.word "list", pos⟩, ⟨.word table, tablePos⟩] next (.list pos table [])
  | table {pos namePos openPos closePos : Position} {next : Option Token} {name : String}
      {fields : List Field} :
      Phrase mode (⟨.word "table", pos⟩ :: ⟨.word name, namePos⟩ :: ⟨.openBrace, openPos⟩ ::
        fields.map Field.token ++ [⟨.closeBrace, closePos⟩]) next (.table pos name fields)
  | insert {pos tablePos sourcePos : Position} {next : Option Token} {table source : String} :
      Phrase mode [⟨.word "insert", pos⟩, ⟨.word table, tablePos⟩, ⟨.word source, sourcePos⟩] next
        (.statement pos (.insert table source))
  | refresh {pos tablePos : Position} {next : Option Token} {table : String} :
      Phrase mode [⟨.word "refresh", pos⟩, ⟨.word table, tablePos⟩] next
        (.statement pos (.refresh table))
  | delete {pos tablePos : Position} {next : Option Token} {table : String} :
      Phrase mode [⟨.word "delete", pos⟩, ⟨.word table, tablePos⟩] next
        (.statement pos (.delete table))
  | updateFrom {pos tablePos fromPos sourcePos : Position} {next : Option Token}
      {table source : String} :
      Phrase mode [⟨.word "update", pos⟩, ⟨.word table, tablePos⟩, ⟨.word "from", fromPos⟩,
        ⟨.word source, sourcePos⟩] next (.statement pos (.update table (some source)))
  | update {pos tablePos : Position} {next : Option Token} {table : String}
      (alone : ∀ token, next = some token → token.lexeme ≠ .word "from") :
      Phrase mode [⟨.word "update", pos⟩, ⟨.word table, tablePos⟩] next
        (.statement pos (.update table none))
  | condition {pos : Position} {token : Token} {next : Option Token} {text : String}
      (values : token.lexeme.Values text) :
      Phrase mode [⟨.word "where", pos⟩, token] next (.statement pos (.condition text))
  | raw {token : Token} {next : Option Token} {text : String}
      (permissive : mode = .permissive) (unknown : Unknown token.lexeme text) :
      Phrase mode [token] next (.raw token.pos text)
  | rawGroup {token : Token} {openPos closePos : Position} {inner : List Token}
      {next : Option Token} {text : String} (permissive : mode = .permissive)
      (unknown : Unknown token.lexeme text) (balanced : Balanced 0 inner) :
      Phrase mode (token :: ⟨.openBrace, openPos⟩ :: inner ++ [⟨.closeBrace, closePos⟩]) next
        (.raw token.pos text)

/-- The sentences with a block of nodes: the tokens before the block, what the block may hold and
the node that a body makes. -/
inductive Opening : List Token → Context → (List Node → Node) → Prop
  | block {pos : Position} {kind : BlockKind} :
      Opening [⟨.word kind.keyword, pos⟩] kind.context (.block pos kind)
  | list {pos tablePos : Position} {table : String} :
      Opening [⟨.word "list", pos⟩, ⟨.word table, tablePos⟩] .list (.list pos table)
  | function {pos namePos : Position} {name : String} :
      Opening [⟨.word "fn", pos⟩, ⟨.word name, namePos⟩] .function (.function pos name)

/-- The tokens spell the nodes, one sentence after another, in a block of the given context. -/
inductive Derives (mode : Mode) : Context → List Token → List Node → Prop
  | nil {context : Context} : Derives mode context [] []
  | phrase {context : Context} {front tokens : List Token} {node : Node} {nodes : List Node}
      (phrase : Phrase mode front tokens.head? node) (accepted : context.accepts node = true)
      (more : Derives mode context tokens nodes) :
      Derives mode context (front ++ tokens) (node :: nodes)
  | block {context inside : Context} {front inner tokens : List Token}
      {make : List Node → Node} {openPos closePos : Position} {body nodes : List Node}
      (opening : Opening front inside make) (within : Derives mode inside inner body)
      (accepted : context.accepts (make body) = true) (more : Derives mode context tokens nodes) :
      Derives mode context
        (front ++ ⟨.openBrace, openPos⟩ :: inner ++ ⟨.closeBrace, closePos⟩ :: tokens)
        (make body :: nodes)

theorem Unknown.values {lexeme : Lexeme} {text : String} (unknown : Unknown lexeme text) :
    ∃ value, lexeme.Values value := by
  cases unknown with
  | word _ => exact ⟨_, .inl rfl⟩
  | literal => exact ⟨_, .inr rfl⟩

/-- Every sentence begins with a word or a literal. -/
theorem Phrase.head {mode : Mode} {front : List Token} {next : Option Token} {node : Node}
    (phrase : Phrase mode front next node) :
    ∃ token back text, front = token :: back ∧ token.lexeme.Values text := by
  cases phrase with
  | raw _ unknown | rawGroup _ unknown _ =>
    obtain ⟨value, values⟩ := unknown.values
    exact ⟨_, _, value, rfl, values⟩
  | _ => exact ⟨_, _, _, rfl, .inl rfl⟩

theorem Opening.head {front : List Token} {inside : Context} {make : List Node → Node}
    (opening : Opening front inside make) :
    ∃ token back text, front = token :: back ∧ token.lexeme.Values text := by
  cases opening <;> exact ⟨_, _, _, rfl, .inl rfl⟩

theorem Derives.head {mode : Mode} {context : Context} {tokens : List Token} {nodes : List Node}
    (derives : Derives mode context tokens nodes) (token : Token)
    (first : tokens.head? = some token) : ∃ text, token.lexeme.Values text := by
  cases derives with
  | nil => cases first
  | phrase phrase _ _ =>
    obtain ⟨head, back, text, rfl, values⟩ := phrase.head
    cases first
    exact ⟨text, values⟩
  | block opening _ _ _ =>
    obtain ⟨head, back, text, rfl, values⟩ := opening.head
    cases first
    exact ⟨text, values⟩

/-- A phrase can be followed by another token if that is no `from` which it has not seen. -/
theorem Phrase.of_next {mode : Mode} {front : List Token} {next other : Option Token} {node : Node}
    (phrase : Phrase mode front next node)
    (seen : ∀ token, other = some token → token.lexeme = .word "from" → next = some token) :
    Phrase mode front other node := by
  cases phrase with
  | app values => exact .app values
  | text values => exact .text values
  | input => exact .input
  | button values => exact .button values
  | list => exact .list
  | table => exact .table
  | insert => exact .insert
  | refresh => exact .refresh
  | delete => exact .delete
  | updateFrom => exact .updateFrom
  | update alone =>
    refine .update fun token follows isFrom => ?_
    exact alone token (seen token follows isFrom) isFrom
  | condition values => exact .condition values
  | raw permissive unknown => exact .raw permissive unknown
  | rawGroup permissive unknown balanced => exact .rawGroup permissive unknown balanced

/-- Where a block ends: at the end of the tokens or before a closing brace. -/
def Stops (rest : List Token) : Prop :=
  ∀ token, rest.head? = some token → token.lexeme = .closeBrace

/-- The nodes of a block at the front of the tokens. -/
def Body (mode : Mode) (context : Context) (tokens : List Token) (nodes : List Node)
    (rest : List Token) : Prop :=
  ∃ front, tokens = front ++ rest ∧ Derives mode context front nodes ∧ Stops rest

/-- One sentence at the front of the tokens, over a relation for the bodies of blocks. -/
inductive Sentence (mode : Mode)
    (body : Context → List Token → List Node → List Token → Prop) :
    List Token → Node → List Token → Prop
  | phrase {front rest : List Token} {node : Node} (phrase : Phrase mode front rest.head? node) :
      Sentence mode body (front ++ rest) node rest
  | block {front inner rest : List Token} {inside : Context} {make : List Node → Node}
      {openPos closePos : Position} {nodes : List Node} (opening : Opening front inside make)
      (within : body inside inner nodes (⟨.closeBrace, closePos⟩ :: rest)) :
      Sentence mode body (front ++ ⟨.openBrace, openPos⟩ :: inner) (make nodes) rest

theorem stops_nil : Stops [] := by
  intro token first
  cases first

theorem stops_closeBrace (pos : Position) (rest : List Token) :
    Stops (⟨.closeBrace, pos⟩ :: rest) := by
  intro token first
  cases first
  rfl

theorem Sentence.head {mode : Mode} {body : Context → List Token → List Node → List Token → Prop}
    {tokens rest : List Token} {node : Node} (sentence : Sentence mode body tokens node rest) :
    ∃ token back text, tokens = token :: back ∧ token.lexeme.Values text := by
  cases sentence with
  | phrase phrase =>
    obtain ⟨token, back, text, rfl, values⟩ := phrase.head
    exact ⟨token, _, text, rfl, values⟩
  | block opening _ =>
    obtain ⟨token, back, text, rfl, values⟩ := opening.head
    exact ⟨token, _, text, rfl, values⟩

theorem body_nil_iff {mode : Mode} {context : Context} {tokens rest : List Token} :
    Body mode context tokens [] rest ↔ tokens = rest ∧ Stops rest := by
  constructor
  · rintro ⟨front, rfl, derives, stops⟩
    cases derives
    exact ⟨rfl, stops⟩
  · rintro ⟨rfl, stops⟩
    exact ⟨[], rfl, .nil, stops⟩

/-- The token behind a body is never `from`, so a phrase at its end sees what the grammar sees. -/
theorem head?_append_of_stops {tokens rest : List Token} (stops : Stops rest) (token : Token)
    (isFrom : token.lexeme = .word "from") :
    (tokens ++ rest).head? = some token ↔ tokens.head? = some token := by
  cases tokens with
  | nil =>
    constructor
    · intro first
      have impossible := stops token first
      rw [isFrom] at impossible
      cases impossible
    · intro impossible
      cases impossible
  | cons head back => rfl

/-- A body that is not empty is a sentence and another body. -/
theorem body_cons_iff {mode : Mode} {context : Context} {tokens rest : List Token} {node : Node}
    {nodes : List Node} :
    Body mode context tokens (node :: nodes) rest ↔
      ∃ middle, Sentence mode (Body mode) tokens node middle ∧ context.accepts node = true ∧
        Body mode context middle nodes rest := by
  constructor
  · rintro ⟨front, rfl, derives, stops⟩
    cases derives with
    | @phrase _ front tokens _ _ phrase accepted more =>
      refine ⟨tokens ++ rest, ?_, accepted, tokens, rfl, more, stops⟩
      rw [List.append_assoc]
      exact .phrase (phrase.of_next fun token first isFrom =>
        (head?_append_of_stops stops token isFrom).mp first)
    | @block _ inside front inner tokens make openPos closePos body _ opening within accepted
        more =>
      refine ⟨tokens ++ rest, ?_, accepted, tokens, rfl, more, stops⟩
      have whole : front ++ ⟨.openBrace, openPos⟩ :: inner ++ ⟨.closeBrace, closePos⟩ :: tokens ++
          rest = front ++ ⟨.openBrace, openPos⟩ ::
            (inner ++ ⟨.closeBrace, closePos⟩ :: (tokens ++ rest)) := by
        simp
      rw [whole]
      exact .block opening ⟨inner, rfl, within, stops_closeBrace _ _⟩
  · rintro ⟨middle, sentence, accepted, tokens, rfl, more, stops⟩
    cases sentence with
    | @phrase front _ _ phrase =>
      refine ⟨front ++ tokens, (List.append_assoc ..).symm, .phrase ?_ accepted more, stops⟩
      exact phrase.of_next fun token first isFrom =>
        (head?_append_of_stops stops token isFrom).mpr first
    | @block front inner _ inside make openPos closePos body opening within =>
      obtain ⟨inner, rfl, within, -⟩ := within
      refine ⟨front ++ ⟨.openBrace, openPos⟩ :: inner ++ ⟨.closeBrace, closePos⟩ :: tokens, ?_,
        .block opening within accepted more, stops⟩
      simp

/-- Where no sentence begins, a body is empty. -/
theorem body_iff_of_not_begins {mode : Mode} {context : Context} {tokens rest : List Token}
    {nodes : List Node}
    (none : ∀ token text, tokens.head? = some token → ¬ token.lexeme.Values text) :
    Body mode context tokens nodes rest ↔ nodes = [] ∧ tokens = rest ∧ Stops rest := by
  cases nodes with
  | nil => simp only [body_nil_iff, true_and]
  | cons node nodes =>
    rw [body_cons_iff]
    constructor
    · rintro ⟨middle, sentence, -⟩
      obtain ⟨token, back, text, rfl, values⟩ := sentence.head
      exact absurd values (none token text rfl)
    · rintro ⟨impossible, -⟩
      cases impossible

end Pagewright
