import Pagewright.Proofs.SuffixReading

set_option autoImplicit false

namespace Pagewright

namespace Reading

variable {tokens : List Token} {α β : Type}

/-- The reading succeeds with the value and leaves the rest. -/
def Reads (reading : Reading tokens α) (value : α) (rest : List Token) : Prop :=
  reading.result = .ok value ∧ reading.rest = rest

theorem Reads.suffix {reading : Reading tokens α} {value : α} {rest : List Token}
    (reads : reading.Reads value rest) : rest <:+ tokens :=
  reads.2 ▸ reading.suffix

theorem done_reads (value result : α) (rest : List Token) :
    (done value : Reading tokens α).Reads result rest ↔ value = result ∧ tokens = rest := by
  simp only [Reads, done, Except.ok.injEq]

theorem not_fail_reads (pos : Position) (fault : ParseFault) (result : α) (rest : List Token) :
    ¬ (fail pos fault : Reading tokens α).Reads result rest := by
  rintro ⟨impossible, -⟩
  cases impossible

theorem behind_reads (token : Token) (reading : Reading tokens α) (result : α)
    (rest : List Token) : (reading.behind token).Reads result rest ↔ reading.Reads result rest :=
  Iff.rfl

theorem map_reads (f : α → β) (reading : Reading tokens α) (result : β) (rest : List Token) :
    (reading.map f).Reads result rest ↔ ∃ value, reading.Reads value rest ∧ f value = result := by
  obtain ⟨outcome, left, suffix⟩ := reading
  cases outcome with
  | error diagnostic =>
    constructor
    · rintro ⟨impossible, -⟩
      cases impossible
    · rintro ⟨_, ⟨impossible, -⟩, -⟩
      cases impossible
  | ok value =>
    constructor
    · rintro ⟨same, rfl⟩
      exact ⟨value, ⟨rfl, rfl⟩, Except.ok.inj same⟩
    · rintro ⟨_, ⟨same, rfl⟩, rfl⟩
      cases same
      exact ⟨rfl, rfl⟩

theorem andThen_reads (first : Reading tokens α)
    (next : α → (rest : List Token) → rest <:+ tokens → Reading rest β) (result : β)
    (rest : List Token) :
    (first.andThen next).Reads result rest ↔
      ∃ value middle, ∃ reads : first.Reads value middle,
        (next value middle reads.suffix).Reads result rest := by
  constructor
  · rintro ⟨success, left⟩
    cases outcome : first.result with
    | error diagnostic =>
      rw [(andThen_of_error next outcome).1] at success
      cases success
    | ok value =>
      rw [(andThen_of_ok next outcome).1] at success
      rw [(andThen_of_ok next outcome).2] at left
      exact ⟨value, first.rest, ⟨outcome, rfl⟩, success, left⟩
  · rintro ⟨value, _, ⟨outcome, rfl⟩, success, left⟩
    exact ⟨(andThen_of_ok next outcome).1.trans success, (andThen_of_ok next outcome).2.trans left⟩

end Reading

theorem Lexeme.value?_eq_some_iff (lexeme : Lexeme) (text : String) :
    lexeme.value? = some text ↔ lexeme.Values text := by
  cases lexeme <;> simp [Lexeme.value?, Lexeme.Values]

theorem Lexeme.name?_eq_some_iff (lexeme : Lexeme) (text : String) :
    lexeme.name? = some text ↔ lexeme = .word text := by
  cases lexeme <;> simp [Lexeme.name?]

theorem Keyword.ofWord?_eq_none_iff (word : String) :
    Keyword.ofWord? word = none ↔ ∀ keyword : Keyword, keyword.spelling ≠ word := by
  simp [Keyword.ofWord?, Keyword.mem_all]

theorem Keyword.ofWord?_spelling (keyword : Keyword) :
    Keyword.ofWord? keyword.spelling = some keyword := by
  rcases keyword with _ | ⟨_ | _⟩ <;> rfl

namespace Parse

open Reading

variable (stop : Position) {tokens rest : List Token}

theorem operand_reads (text? : Lexeme → Option String) (construct : Construct) (text : String) :
    (operand stop text? construct tokens).Reads text rest ↔
      ∃ token, tokens = token :: rest ∧ text? token.lexeme = some text := by
  cases tokens with
  | nil => simp [operand, not_fail_reads]
  | cons token back =>
    simp only [operand]
    cases found : text? token.lexeme with
    | none => simp [not_fail_reads, found]
    | some value =>
      simp only [behind_reads, done_reads]
      constructor
      · rintro ⟨rfl, rfl⟩
        exact ⟨token, rfl, found⟩
      · rintro ⟨_, same, chosen⟩
        cases same
        exact ⟨Option.some.inj (found.symm.trans chosen), rfl⟩

theorem name_reads (construct : Construct) (text : String) :
    (name stop construct tokens).Reads text rest ↔
      ∃ pos, tokens = ⟨.word text, pos⟩ :: rest := by
  rw [name, operand_reads]
  constructor
  · rintro ⟨⟨lexeme, pos⟩, rfl, found⟩
    cases (Lexeme.name?_eq_some_iff lexeme text).mp found
    exact ⟨pos, rfl⟩
  · rintro ⟨pos, rfl⟩
    exact ⟨_, rfl, rfl⟩

theorem value_reads (construct : Construct) (text : String) :
    (value stop construct tokens).Reads text rest ↔
      ∃ token, tokens = token :: rest ∧ token.lexeme.Values text := by
  simp only [value, operand_reads, Lexeme.value?_eq_some_iff]

theorem name_map_reads {α : Type} (construct : Construct) (make : String → α) (result : α) :
    ((name stop construct tokens).map make).Reads result rest ↔
      ∃ text pos, tokens = ⟨.word text, pos⟩ :: rest ∧ make text = result := by
  simp only [map_reads, name_reads, exists_and_right]

theorem value_map_reads {α : Type} (construct : Construct) (make : String → α) (result : α) :
    ((value stop construct tokens).map make).Reads result rest ↔
      ∃ text token, tokens = token :: rest ∧ token.lexeme.Values text ∧ make text = result := by
  simp only [map_reads, value_reads]
  grind

theorem opened_reads (owner : String) (taken : Unit) :
    (opened stop owner tokens).Reads taken rest ↔
      ∃ pos, tokens = ⟨.openBrace, pos⟩ :: rest := by
  cases tokens with
  | nil => simp [opened, not_fail_reads]
  | cons token back =>
    obtain ⟨lexeme, pos⟩ := token
    by_cases isOpen : lexeme = .openBrace
    · simp [opened, isOpen, behind_reads, done_reads]
    · simp [opened, isOpen, not_fail_reads]

theorem closed_reads (owner : String) (taken : Unit) :
    (closed stop owner tokens).Reads taken rest ↔
      ∃ pos, tokens = ⟨.closeBrace, pos⟩ :: rest := by
  cases tokens with
  | nil => simp [closed, not_fail_reads]
  | cons token back =>
    obtain ⟨lexeme, pos⟩ := token
    by_cases isClose : lexeme = .closeBrace
    · simp [closed, isClose, behind_reads, done_reads]
    · simp [closed, isClose, not_fail_reads]

theorem fields_reads (declared : List Field) :
    (fields stop tokens).Reads declared rest ↔
      ∃ pos, tokens = declared.map Field.token ++ ⟨.closeBrace, pos⟩ :: rest := by
  induction tokens generalizing declared with
  | nil => simp [fields, not_fail_reads]
  | cons token back ih =>
    obtain ⟨lexeme, pos⟩ := token
    cases lexeme with
    | closeBrace =>
      simp only [fields, behind_reads, done_reads]
      cases declared <;> simp [Field.token]
    | word text =>
      simp only [fields, behind_reads, map_reads, ih]
      constructor
      · rintro ⟨others, ⟨closePos, rfl⟩, rfl⟩
        exact ⟨closePos, rfl⟩
      · rintro ⟨closePos, same⟩
        cases declared with
        | nil => cases same
        | cons field others =>
          cases same
          exact ⟨others, ⟨closePos, rfl⟩, rfl⟩
    | literal text | openBrace | endOfInput =>
      simp only [fields, not_fail_reads, false_iff]
      rintro ⟨closePos, same⟩
      cases declared <;> cases same

/-- A token before the brace that closes a group is that brace or belongs to the group. -/
theorem exists_group_cons (inGroup : List Token → Prop) (token : Token) (back : List Token) :
    (∃ inner pos, inGroup inner ∧ token :: back = inner ++ ⟨.closeBrace, pos⟩ :: rest) ↔
      (token.lexeme = .closeBrace ∧ inGroup [] ∧ back = rest) ∨
      ∃ inner pos, inGroup (token :: inner) ∧ back = inner ++ ⟨.closeBrace, pos⟩ :: rest := by
  constructor
  · rintro ⟨inner, pos, belongs, same⟩
    cases inner with
    | nil =>
      cases same
      exact .inl ⟨rfl, belongs, rfl⟩
    | cons first inner =>
      cases same
      exact .inr ⟨inner, pos, belongs, rfl⟩
  · rintro (⟨isClose, belongs, rfl⟩ | ⟨inner, pos, belongs, rfl⟩)
    · obtain ⟨lexeme, pos⟩ := token
      cases isClose
      exact ⟨[], pos, belongs, rfl⟩
    · exact ⟨token :: inner, pos, belongs, rfl⟩

theorem group_reads (owner : String) (depth : Nat) (taken : Unit) :
    (group stop owner depth tokens).Reads taken rest ↔
      ∃ inner pos, Balanced depth inner ∧ tokens = inner ++ ⟨.closeBrace, pos⟩ :: rest := by
  induction tokens generalizing depth with
  | nil => simp [group, not_fail_reads]
  | cons token back ih =>
    obtain ⟨lexeme, pos⟩ := token
    rw [exists_group_cons]
    cases lexeme with
    | openBrace => simp [group, behind_reads, ih, balanced_cons_openBrace]
    | closeBrace =>
      cases depth with
      | zero =>
        simp [group, behind_reads, done_reads, balanced_nil, not_balanced_zero_closeBrace]
      | succ depth => simp [group, behind_reads, ih, balanced_nil, balanced_cons_closeBrace]
    | word text | literal text | endOfInput =>
      simp [group, behind_reads, ih, balanced_cons_of_ne]

/-- The next token does not open a block. -/
def Shut (rest : List Token) : Prop :=
  ∀ token, rest.head? = some token → token.lexeme ≠ .openBrace

theorem not_shut_openBrace (pos : Position) (back : List Token) :
    ¬ Shut (⟨.openBrace, pos⟩ :: back) :=
  fun shut => shut _ rfl rfl

theorem raw_reads (shut : Shut rest) (mode : Mode) (pos : Position) (text : String) (node : Node) :
    (raw stop mode pos text tokens).Reads node rest ↔
      mode = .permissive ∧ node = .raw pos text ∧
        (tokens = rest ∨ ∃ openPos inner closePos, Balanced 0 inner ∧
          tokens = ⟨.openBrace, openPos⟩ :: inner ++ ⟨.closeBrace, closePos⟩ :: rest) := by
  cases mode with
  | strict => simp [raw, not_fail_reads]
  | permissive =>
    unfold raw
    split
    · rename_i strict
      cases strict
    · split
      · rename_i bracePos back
        simp only [behind_reads, map_reads, group_reads, true_and]
        constructor
        · rintro ⟨_, ⟨inner, closePos, balanced, rfl⟩, rfl⟩
          exact ⟨rfl, .inr ⟨bracePos, inner, closePos, balanced, rfl⟩⟩
        · rintro ⟨rfl, rfl | ⟨openPos, inner, closePos, balanced, same⟩⟩
          · exact absurd shut (not_shut_openBrace bracePos back)
          · cases same
            exact ⟨(), ⟨inner, closePos, balanced, rfl⟩, rfl⟩
      · rename_i noBrace
        simp only [done_reads, true_and]
        constructor
        · rintro ⟨rfl, rfl⟩
          exact ⟨rfl, .inl rfl⟩
        · rintro ⟨rfl, rfl | ⟨openPos, inner, closePos, -, same⟩⟩
          · exact ⟨rfl, rfl⟩
          · exact absurd same (noBrace openPos _)

theorem optionalSource_reads (source : Option String) :
    (optionalSource stop tokens).Reads source rest ↔
      (source = none ∧ tokens = rest ∧
        ∀ token, rest.head? = some token → token.lexeme ≠ .word "from") ∨
      ∃ fromPos sourcePos text, source = some text ∧
        tokens = ⟨.word "from", fromPos⟩ :: ⟨.word text, sourcePos⟩ :: rest := by
  cases tokens with
  | nil =>
    simp only [optionalSource, done_reads]
    constructor
    · rintro ⟨rfl, rfl⟩
      exact .inl ⟨rfl, rfl, fun _ impossible => by cases impossible⟩
    · rintro (⟨rfl, rfl, -⟩ | ⟨_, _, _, -, impossible⟩)
      · exact ⟨rfl, rfl⟩
      · cases impossible
  | cons token back =>
    obtain ⟨lexeme, pos⟩ := token
    by_cases isFrom : lexeme = .word "from"
    · subst isFrom
      simp only [optionalSource, ↓reduceIte, behind_reads, map_reads, name_reads]
      constructor
      · rintro ⟨text, ⟨sourcePos, rfl⟩, rfl⟩
        exact .inr ⟨pos, sourcePos, text, rfl, rfl⟩
      · rintro (⟨-, rfl, alone⟩ | ⟨fromPos, sourcePos, text, rfl, same⟩)
        · exact absurd rfl (alone _ rfl)
        · cases same
          exact ⟨text, ⟨sourcePos, rfl⟩, rfl⟩
    · simp only [optionalSource, isFrom, ↓reduceIte, done_reads]
      constructor
      · rintro ⟨rfl, rfl⟩
        exact .inl ⟨rfl, rfl, fun token first => by cases first; exact isFrom⟩
      · rintro (⟨rfl, rfl, -⟩ | ⟨_, _, _, -, same⟩)
        · exact ⟨rfl, rfl⟩
        · cases same
          exact absurd rfl isFrom

/-- The reader reads just the bodies of the relation. -/
def Realizes (reader : BodyReader tokens)
    (body : Context → List Token → List Node → List Token → Prop) : Prop :=
  ∀ context owner inner within nodes after,
    (reader context owner inner within).Reads nodes after ↔ body context inner nodes after

section

variable {reader : BodyReader tokens}
  {body : Context → List Token → List Node → List Token → Prop}

theorem block_reads (realizes : Realizes reader body) (context : Context) (owner : String)
    (nodes : List Node) :
    (block stop context owner tokens reader).Reads nodes rest ↔
      ∃ openPos inner closePos, tokens = ⟨.openBrace, openPos⟩ :: inner ∧
        body context inner nodes (⟨.closeBrace, closePos⟩ :: rest) := by
  simp only [block, andThen_reads, map_reads, closed_reads, realizes _ _ _ _ _ _]
  constructor
  · rintro ⟨_, inner, opening, read, _, within, _, ⟨closePos, rfl⟩, rfl⟩
    obtain ⟨openPos, rfl⟩ := (opened_reads stop owner _).mp opening
    exact ⟨openPos, inner, closePos, rfl, within⟩
  · rintro ⟨openPos, inner, closePos, rfl, within⟩
    exact ⟨(), inner, (opened_reads stop owner _).mpr ⟨openPos, rfl⟩, nodes, _, within, (),
      ⟨closePos, rfl⟩, rfl⟩

theorem optionalBlock_reads (realizes : Realizes reader body) (shut : Shut rest)
    (context : Context) (owner : String) (nodes : List Node) :
    (optionalBlock stop context owner tokens reader).Reads nodes rest ↔
      (nodes = [] ∧ tokens = rest) ∨
      ∃ openPos inner closePos, tokens = ⟨.openBrace, openPos⟩ :: inner ∧
        body context inner nodes (⟨.closeBrace, closePos⟩ :: rest) := by
  unfold optionalBlock
  split
  · rename_i isOpen
    rw [block_reads stop realizes]
    constructor
    · exact .inr
    · rintro (⟨rfl, rfl⟩ | blocked)
      · obtain ⟨token, first, isBrace⟩ := Option.map_eq_some_iff.mp isOpen
        exact absurd isBrace (shut token first)
      · exact blocked
  · rename_i notOpen
    rw [done_reads]
    constructor
    · rintro ⟨rfl, rfl⟩
      exact .inl ⟨rfl, rfl⟩
    · rintro (⟨rfl, rfl⟩ | ⟨_, _, _, rfl, -⟩)
      · exact ⟨rfl, rfl⟩
      · exact absurd rfl notOpen

theorem Realizes.within {back : List Token} (realizes : Realizes reader body)
    (suffix : back <:+ tokens) :
    @Realizes back
      (fun context owner inner within => reader context owner inner (within.trans suffix)) body :=
  fun context owner inner within nodes after =>
    realizes context owner inner (within.trans suffix) nodes after

/-- What follows a keyword is read as the grammar has it. -/
theorem sentence_of_reads (realizes : Realizes reader body) (shut : Shut rest) (mode : Mode)
    (keyword : Keyword) (pos : Position) (node : Node)
    (reads : (sentence stop keyword pos tokens reader).Reads node rest) :
    Sentence mode body (⟨.word keyword.spelling, pos⟩ :: tokens) node rest := by
  cases keyword with
  | app =>
    obtain ⟨name, token, rfl, values, rfl⟩ := (value_map_reads ..).mp reads
    exact (Sentence.phrase (.app values) :)
  | text =>
    obtain ⟨value, token, rfl, values, rfl⟩ := (value_map_reads ..).mp reads
    exact (Sentence.phrase (.text values) :)
  | condition =>
    obtain ⟨text, token, rfl, values, rfl⟩ := (value_map_reads ..).mp reads
    exact (Sentence.phrase (.condition values) :)
  | refresh =>
    obtain ⟨table, tablePos, rfl, rfl⟩ := (name_map_reads ..).mp reads
    exact (Sentence.phrase .refresh :)
  | delete =>
    obtain ⟨table, tablePos, rfl, rfl⟩ := (name_map_reads ..).mp reads
    exact (Sentence.phrase .delete :)
  | input =>
    obtain ⟨kind, _, first, second⟩ := (andThen_reads ..).mp reads
    obtain ⟨kindPos, rfl⟩ := (name_reads ..).mp first
    obtain ⟨id, idPos, rfl, rfl⟩ := (name_map_reads ..).mp second
    exact (Sentence.phrase .input :)
  | button =>
    obtain ⟨label, _, first, second⟩ := (andThen_reads ..).mp reads
    obtain ⟨token, rfl, values⟩ := (value_reads ..).mp first
    obtain ⟨handler, handlerPos, rfl, rfl⟩ := (name_map_reads ..).mp second
    exact (Sentence.phrase (.button values) :)
  | insert =>
    obtain ⟨table, _, first, second⟩ := (andThen_reads ..).mp reads
    obtain ⟨tablePos, rfl⟩ := (name_reads ..).mp first
    obtain ⟨source, sourcePos, rfl, rfl⟩ := (name_map_reads ..).mp second
    exact (Sentence.phrase .insert :)
  | update =>
    obtain ⟨table, _, first, second⟩ := (andThen_reads ..).mp reads
    obtain ⟨tablePos, rfl⟩ := (name_reads ..).mp first
    obtain ⟨source, read, rfl⟩ := (map_reads ..).mp second
    rcases (optionalSource_reads ..).mp read with ⟨rfl, rfl, alone⟩ | ⟨_, _, text, rfl, rfl⟩
    · exact (Sentence.phrase (.update alone) :)
    · exact (Sentence.phrase .updateFrom :)
  | table =>
    obtain ⟨name, _, first, second⟩ := (andThen_reads ..).mp reads
    obtain ⟨namePos, rfl⟩ := (name_reads ..).mp first
    obtain ⟨_, _, brace, third⟩ := (andThen_reads ..).mp second
    obtain ⟨openPos, rfl⟩ := (opened_reads ..).mp brace
    obtain ⟨fields, read, rfl⟩ := (map_reads ..).mp third
    obtain ⟨closePos, rfl⟩ := (fields_reads ..).mp read
    have whole : fields.map Field.token ++ ⟨.closeBrace, closePos⟩ :: rest =
        fields.map Field.token ++ [⟨.closeBrace, closePos⟩] ++ rest := by
      simp
    rw [whole]
    exact (Sentence.phrase .table :)
  | block kind =>
    obtain ⟨nodes, read, rfl⟩ := (map_reads ..).mp reads
    obtain ⟨openPos, inner, closePos, rfl, within⟩ := (block_reads stop realizes ..).mp read
    exact (Sentence.block .block within :)
  | list =>
    obtain ⟨table, _, first, second⟩ := (andThen_reads ..).mp reads
    obtain ⟨nodes, read, rfl⟩ := (map_reads ..).mp second
    have blocks := (optionalBlock_reads stop (realizes.within first.suffix) shut ..).mp read
    obtain ⟨tablePos, rfl⟩ := (name_reads ..).mp first
    rcases blocks with ⟨rfl, rfl⟩ | ⟨openPos, inner, closePos, rfl, within⟩
    · exact (Sentence.phrase .list :)
    · exact (Sentence.block .list within :)
  | function =>
    obtain ⟨name, _, first, second⟩ := (andThen_reads ..).mp reads
    obtain ⟨nodes, read, rfl⟩ := (map_reads ..).mp second
    have blocks := (block_reads stop (realizes.within first.suffix) ..).mp read
    obtain ⟨namePos, rfl⟩ := (name_reads ..).mp first
    obtain ⟨openPos, inner, closePos, rfl, within⟩ := blocks
    exact (Sentence.block .function within :)

theorem sentence_of_raw_reads (shut : Shut rest) (mode : Mode) (token : Token) (text : String)
    (unknown : Unknown token.lexeme text) (node : Node)
    (reads : (raw stop mode token.pos text tokens).Reads node rest) :
    Sentence mode body (token :: tokens) node rest := by
  obtain ⟨permissive, rfl, rfl | ⟨openPos, inner, closePos, balanced, rfl⟩⟩ :=
    (raw_reads stop shut ..).mp reads
  · exact (Sentence.phrase (.raw permissive unknown) :)
  · have whole : inner ++ ⟨.closeBrace, closePos⟩ :: rest =
        inner ++ [⟨.closeBrace, closePos⟩] ++ rest := by
      simp
    rw [List.cons_append, whole]
    exact (Sentence.phrase (.rawGroup permissive unknown balanced) :)

theorem sentence_of_node_reads (realizes : Realizes reader body) (shut : Shut rest) (mode : Mode)
    (token : Token) (first : Node)
    (reads : (node stop mode token tokens reader).Reads first rest) :
    Sentence mode body (token :: tokens) first rest := by
  obtain ⟨lexeme, pos⟩ := token
  cases lexeme with
  | word word =>
    simp only [node, ofWord] at reads
    cases found : Keyword.ofWord? word with
    | some keyword =>
      rw [found] at reads
      cases Keyword.spelling_of_ofWord? found
      exact sentence_of_reads stop realizes shut mode keyword pos first reads
    | none =>
      rw [found] at reads
      have foreign := (Keyword.ofWord?_eq_none_iff word).mp found
      exact sentence_of_raw_reads stop shut mode ⟨.word word, pos⟩ word (.word foreign) first reads
  | literal text =>
    exact sentence_of_raw_reads stop shut mode ⟨.literal text, pos⟩ _ .literal first reads
  | openBrace | closeBrace | endOfInput => exact (not_fail_reads _ _ _ _ reads).elim

theorem node_reads_of_keyword (mode : Mode) (keyword : Keyword) (pos : Position) (first : Node)
    (reads : (sentence stop keyword pos tokens reader).Reads first rest) :
    (node stop mode ⟨.word keyword.spelling, pos⟩ tokens reader).Reads first rest := by
  simpa only [node, ofWord, Keyword.ofWord?_spelling] using reads

theorem node_reads_of_unknown (mode : Mode) (token : Token) (text : String)
    (unknown : Unknown token.lexeme text) (first : Node)
    (reads : (raw stop mode token.pos text tokens).Reads first rest) :
    (node stop mode token tokens reader).Reads first rest := by
  obtain ⟨lexeme, pos⟩ := token
  cases unknown with
  | word foreign =>
    simpa only [node, ofWord, (Keyword.ofWord?_eq_none_iff _).mpr foreign] using reads
  | literal => exact reads

theorem node_reads_of_phrase (realizes : Realizes reader body) (shut : Shut rest) (mode : Mode)
    (token : Token) (back : List Token) (first : Node)
    (phrase : Phrase mode (token :: back) rest.head? first) (same : tokens = back ++ rest) :
    (node stop mode token tokens reader).Reads first rest := by
  subst same
  cases phrase with
  | app values =>
    exact node_reads_of_keyword stop mode .app _ _
      ((value_map_reads ..).mpr ⟨_, _, rfl, values, rfl⟩)
  | text values =>
    exact node_reads_of_keyword stop mode .text _ _
      ((value_map_reads ..).mpr ⟨_, _, rfl, values, rfl⟩)
  | condition values =>
    exact node_reads_of_keyword stop mode .condition _ _
      ((value_map_reads ..).mpr ⟨_, _, rfl, values, rfl⟩)
  | refresh =>
    exact node_reads_of_keyword stop mode .refresh _ _ ((name_map_reads ..).mpr ⟨_, _, rfl, rfl⟩)
  | delete =>
    exact node_reads_of_keyword stop mode .delete _ _ ((name_map_reads ..).mpr ⟨_, _, rfl, rfl⟩)
  | input =>
    exact node_reads_of_keyword stop mode .input _ _ ((andThen_reads ..).mpr
      ⟨_, _, (name_reads ..).mpr ⟨_, rfl⟩, (name_map_reads ..).mpr ⟨_, _, rfl, rfl⟩⟩)
  | button values =>
    exact node_reads_of_keyword stop mode .button _ _ ((andThen_reads ..).mpr
      ⟨_, _, (value_reads ..).mpr ⟨_, rfl, values⟩, (name_map_reads ..).mpr ⟨_, _, rfl, rfl⟩⟩)
  | insert =>
    exact node_reads_of_keyword stop mode .insert _ _ ((andThen_reads ..).mpr
      ⟨_, _, (name_reads ..).mpr ⟨_, rfl⟩, (name_map_reads ..).mpr ⟨_, _, rfl, rfl⟩⟩)
  | updateFrom =>
    exact node_reads_of_keyword stop mode .update _ _ ((andThen_reads ..).mpr
      ⟨_, _, (name_reads ..).mpr ⟨_, rfl⟩, (map_reads ..).mpr
        ⟨_, (optionalSource_reads ..).mpr (.inr ⟨_, _, _, rfl, rfl⟩), rfl⟩⟩)
  | update alone =>
    exact node_reads_of_keyword stop mode .update _ _ ((andThen_reads ..).mpr
      ⟨_, _, (name_reads ..).mpr ⟨_, rfl⟩, (map_reads ..).mpr
        ⟨_, (optionalSource_reads ..).mpr (.inl ⟨rfl, rfl, alone⟩), rfl⟩⟩)
  | @table _ _ _ closePos _ _ fields =>
    have whole : fields.map Field.token ++ [⟨.closeBrace, closePos⟩] ++ rest =
        fields.map Field.token ++ ⟨.closeBrace, closePos⟩ :: rest := by
      simp
    exact node_reads_of_keyword stop mode .table _ _ ((andThen_reads ..).mpr
      ⟨_, _, (name_reads ..).mpr ⟨_, rfl⟩, (andThen_reads ..).mpr
        ⟨(), _, (opened_reads ..).mpr ⟨_, rfl⟩, (map_reads ..).mpr
          ⟨_, (fields_reads ..).mpr ⟨_, whole⟩, rfl⟩⟩⟩)
  | list =>
    refine node_reads_of_keyword stop mode .list _ _ ((andThen_reads ..).mpr
      ⟨_, _, (name_reads ..).mpr ⟨_, rfl⟩, (map_reads ..).mpr ⟨_, ?_, rfl⟩⟩)
    have bodies := realizes.within (List.suffix_cons _ _)
    exact (optionalBlock_reads stop bodies shut ..).mpr (.inl ⟨rfl, rfl⟩)
  | raw permissive unknown =>
    exact node_reads_of_unknown stop mode token _ unknown _
      ((raw_reads stop shut ..).mpr ⟨permissive, rfl, .inl rfl⟩)
  | @rawGroup _ openPos closePos inner _ _ permissive unknown balanced =>
    refine node_reads_of_unknown stop mode token _ unknown _ ((raw_reads stop shut ..).mpr ?_)
    refine ⟨permissive, rfl, .inr ⟨openPos, inner, closePos, balanced, ?_⟩⟩
    simp

theorem node_reads_of_opening (realizes : Realizes reader body) (shut : Shut rest) (mode : Mode)
    (token : Token) (back inner : List Token) (inside : Context) (make : List Node → Node)
    (openPos closePos : Position) (nodes : List Node)
    (opening : Opening (token :: back) inside make)
    (within : body inside inner nodes (⟨.closeBrace, closePos⟩ :: rest))
    (same : tokens = back ++ ⟨.openBrace, openPos⟩ :: inner) :
    (node stop mode token tokens reader).Reads (make nodes) rest := by
  subst same
  cases opening with
  | @block pos kind =>
    exact node_reads_of_keyword stop mode (.block kind) _ _ ((map_reads ..).mpr
      ⟨_, (block_reads stop realizes ..).mpr ⟨_, _, _, rfl, within⟩, rfl⟩)
  | list =>
    refine node_reads_of_keyword stop mode .list _ _ ((andThen_reads ..).mpr
      ⟨_, _, (name_reads ..).mpr ⟨_, rfl⟩, (map_reads ..).mpr ⟨_, ?_, rfl⟩⟩)
    exact (optionalBlock_reads stop (realizes.within (List.suffix_cons _ _)) shut ..).mpr
      (.inr ⟨_, _, _, rfl, within⟩)
  | function =>
    refine node_reads_of_keyword stop mode .function _ _ ((andThen_reads ..).mpr
      ⟨_, _, (name_reads ..).mpr ⟨_, rfl⟩, (map_reads ..).mpr ⟨_, ?_, rfl⟩⟩)
    exact (block_reads stop (realizes.within (List.suffix_cons _ _)) ..).mpr ⟨_, _, _, rfl, within⟩

theorem node_reads_iff (realizes : Realizes reader body) (shut : Shut rest) (mode : Mode)
    (token : Token) (first : Node) :
    (node stop mode token tokens reader).Reads first rest ↔
      Sentence mode body (token :: tokens) first rest := by
  constructor
  · exact sentence_of_node_reads stop realizes shut mode token first
  · intro sentence
    generalize whole : token :: tokens = all at sentence
    cases sentence with
    | @phrase front _ _ phrase =>
      obtain ⟨head, back, _, rfl, -⟩ := phrase.head
      cases whole
      exact node_reads_of_phrase stop realizes shut mode token back first phrase rfl
    | @block front inner _ inside make openPos closePos nodes opening within =>
      obtain ⟨head, back, _, rfl, -⟩ := opening.head
      cases whole
      exact node_reads_of_opening stop realizes shut mode token back inner inside make openPos
        closePos nodes opening within rfl

end

end Parse

end Pagewright
