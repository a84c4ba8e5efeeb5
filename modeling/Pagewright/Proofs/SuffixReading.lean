import Pagewright.Proofs.Derivation

set_option autoImplicit false

namespace Pagewright

/-- What reading from the front of the given tokens yields. -/
structure Reading (tokens : List Token) (α : Type) where
  result : Except Diagnostic α
  rest : List Token
  suffix : rest <:+ tokens

namespace Reading

variable {tokens : List Token} {α β : Type}

/-- Reads nothing. -/
def done (value : α) : Reading tokens α := ⟨.ok value, tokens, List.suffix_rfl⟩

/-- Fails before the first token. -/
def fail (pos : Position) (fault : ParseFault) : Reading tokens α :=
  ⟨.error (.parse pos fault), tokens, List.suffix_rfl⟩

/-- The reading of the tokens behind one that was taken. -/
def behind (token : Token) (reading : Reading tokens α) : Reading (token :: tokens) α :=
  ⟨reading.result, reading.rest, reading.suffix.trans (List.suffix_cons token tokens)⟩

def map (f : α → β) (reading : Reading tokens α) : Reading tokens β :=
  ⟨reading.result.map f, reading.rest, reading.suffix⟩

/-- Goes on with the tokens that a successful reading leaves. -/
def andThen (first : Reading tokens α)
    (next : α → (rest : List Token) → rest <:+ tokens → Reading rest β) : Reading tokens β :=
  match first.result with
  | .error diagnostic => ⟨.error diagnostic, first.rest, first.suffix⟩
  | .ok value =>
    let second := next value first.rest first.suffix
    ⟨second.result, second.rest, second.suffix.trans first.suffix⟩

@[simp] theorem map_result (f : α → β) (reading : Reading tokens α) :
    (reading.map f).result = reading.result.map f := rfl

@[simp] theorem behind_rest (token : Token) (reading : Reading tokens α) :
    (reading.behind token).rest = reading.rest := rfl

theorem andThen_of_error {first : Reading tokens α} {diagnostic : Diagnostic}
    (next : α → (rest : List Token) → rest <:+ tokens → Reading rest β)
    (failed : first.result = .error diagnostic) :
    (first.andThen next).result = .error diagnostic ∧ (first.andThen next).rest = first.rest := by
  unfold andThen
  split <;> simp_all

theorem andThen_of_ok {first : Reading tokens α} {value : α}
    (next : α → (rest : List Token) → rest <:+ tokens → Reading rest β)
    (read : first.result = .ok value) :
    (first.andThen next).result = (next value first.rest first.suffix).result ∧
      (first.andThen next).rest = (next value first.rest first.suffix).rest := by
  unfold andThen
  split <;> simp_all

end Reading

namespace Parse

variable (stop : Position)

/-- One operand of a sentence. -/
def operand (text? : Lexeme → Option String) (construct : Construct) :
    (tokens : List Token) → Reading tokens String
  | [] => .fail stop (.noOperand construct .endOfInput)
  | token :: _ =>
    match text? token.lexeme with
    | some text => (Reading.done text).behind token
    | none => .fail token.pos (.noOperand construct token.lexeme)

/-- A table, field, control or handler name. -/
def name (construct : Construct) (tokens : List Token) : Reading tokens String :=
  operand stop Lexeme.name? construct tokens

/-- A text that may be quoted. -/
def value (construct : Construct) (tokens : List Token) : Reading tokens String :=
  operand stop Lexeme.value? construct tokens

def opened (owner : String) : (tokens : List Token) → Reading tokens Unit
  | [] => .fail stop (.notOpened owner .endOfInput)
  | token :: _ =>
    if token.lexeme = .openBrace then
      (Reading.done ()).behind token
    else
      .fail token.pos (.notOpened owner token.lexeme)

def closed (owner : String) : (tokens : List Token) → Reading tokens Unit
  | [] => .fail stop (.notClosed owner)
  | token :: _ =>
    if token.lexeme = .closeBrace then
      (Reading.done ()).behind token
    else
      .fail token.pos (.notClosed owner)

/-- The field names of a table, up to and with the closing brace. -/
def fields : (tokens : List Token) → Reading tokens (List Field)
  | [] => .fail stop (.notClosed "table")
  | token :: tokens =>
    match token.lexeme with
    | .closeBrace => (Reading.done []).behind token
    | .word name => ((fields tokens).map (⟨name, token.pos⟩ :: ·)).behind token
    | other => .fail token.pos (.noOperand .fieldName other)

/-- The rest of a brace group, with further braces open inside it. -/
def group (owner : String) (depth : Nat) : (tokens : List Token) → Reading tokens Unit
  | [] => .fail stop (.notClosed owner)
  | token :: tokens =>
    match token.lexeme with
    | .openBrace => (group owner (depth + 1) tokens).behind token
    | .closeBrace =>
      match depth with
      | 0 => (Reading.done ()).behind token
      | depth + 1 => (group owner depth tokens).behind token
    | _ => (group owner depth tokens).behind token

/-- A sentence that begins with something unknown. -/
def raw (mode : Mode) (pos : Position) (token : String) (tokens : List Token) :
    Reading tokens Node :=
  match mode with
  | .strict => .fail pos (.unknownKeyword token)
  | .permissive =>
    match tokens with
    | ⟨.openBrace, bracePos⟩ :: tokens =>
      ((group stop ("'" ++ token ++ "'") 0 tokens).map fun _ => .raw pos token).behind
        ⟨.openBrace, bracePos⟩
    | _ => .done (.raw pos token)

/-- Reads the nodes of a block from a suffix of the tokens. -/
abbrev BodyReader (tokens : List Token) : Type :=
  Context → String → (rest : List Token) → rest <:+ tokens → Reading rest (List Node)

/-- The nodes between two braces. -/
def block (context : Context) (owner : String) (tokens : List Token) (body : BodyReader tokens) :
    Reading tokens (List Node) :=
  (opened stop owner tokens).andThen fun _ rest suffix =>
    (body context owner rest suffix).andThen fun nodes rest _ =>
      (closed stop owner rest).map fun _ => nodes

/-- The nodes between two braces, none if no brace follows. -/
def optionalBlock (context : Context) (owner : String) (tokens : List Token)
    (body : BodyReader tokens) : Reading tokens (List Node) :=
  if tokens.head?.map Token.lexeme = some .openBrace then
    block stop context owner tokens body
  else
    .done []

/-- The source that an update may name. -/
def optionalSource : (tokens : List Token) → Reading tokens (Option String)
  | [] => .done none
  | token :: tokens =>
    if token.lexeme = .word "from" then
      ((name stop .valueSource tokens).map some).behind token
    else
      .done none

/-- What follows a keyword. -/
def sentence (keyword : Keyword) (pos : Position) (tokens : List Token)
    (body : BodyReader tokens) : Reading tokens Node :=
  match keyword with
  | .app => (value stop .applicationName tokens).map (.app pos)
  | .block kind => (block stop kind.context kind.keyword tokens body).map (.block pos kind)
  | .text => (value stop .textValue tokens).map (.text pos)
  | .input =>
    (name stop .inputKind tokens).andThen fun kind rest _ =>
      (name stop .inputId rest).map (.input pos kind)
  | .button =>
    (value stop .buttonLabel tokens).andThen fun label rest _ =>
      (name stop .handlerName rest).map (.button pos label)
  | .list =>
    (name stop .tableName tokens).andThen fun table rest suffix =>
      (optionalBlock stop .list "list" rest fun context owner inner within =>
        body context owner inner (within.trans suffix)).map (.list pos table)
  | .table =>
    (name stop .tableName tokens).andThen fun table rest _ =>
      (opened stop "table" rest).andThen fun _ rest _ =>
        (fields stop rest).map (.table pos table)
  | .function =>
    (name stop .functionName tokens).andThen fun function rest suffix =>
      (block stop .function "fn" rest fun context owner inner within =>
        body context owner inner (within.trans suffix)).map (.function pos function)
  | .insert =>
    (name stop .tableName tokens).andThen fun table rest _ =>
      (name stop .valueSource rest).map fun source => .statement pos (.insert table source)
  | .refresh => (name stop .tableName tokens).map fun table => .statement pos (.refresh table)
  | .delete => (name stop .tableName tokens).map fun table => .statement pos (.delete table)
  | .update =>
    (name stop .tableName tokens).andThen fun table rest _ =>
      (optionalSource stop rest).map fun source => .statement pos (.update table source)
  | .condition =>
    (value stop .condition tokens).map fun text => .statement pos (.condition text)

/-- The node that a word begins. -/
def ofWord (mode : Mode) (word : String) (pos : Position) (tokens : List Token)
    (body : BodyReader tokens) : Reading tokens Node :=
  match Keyword.ofWord? word with
  | some keyword => sentence stop keyword pos tokens body
  | none => raw stop mode pos word tokens

/-- The node that the token begins, from the tokens behind it. -/
def node (mode : Mode) (token : Token) (tokens : List Token) (body : BodyReader tokens) :
    Reading tokens Node :=
  match token.lexeme with
  | .word word => ofWord stop mode word token.pos tokens body
  | .literal text => raw stop mode token.pos ("\"" ++ text ++ "\"") tokens
  | other => .fail token.pos (.noKeyword other)

/-- Nodes up to a closing brace or the end. Whether the block takes a node is asked when the node
has been read whole. -/
def nodes (mode : Mode) (context : Context) (owner : String) (tokens : List Token) :
    Reading tokens (List Node) :=
  match tokens with
  | [] => .done []
  | token :: tokens =>
    match token.lexeme with
    | .closeBrace => .done []
    | .openBrace | .endOfInput => .fail token.pos (.noKeyword token.lexeme)
    | .word _ | .literal _ =>
      ((node stop mode token tokens fun context owner rest suffix =>
          have := suffix.length_le
          nodes mode context owner rest).andThen fun first rest suffix =>
        have := suffix.length_le
        if context.accepts first then
          (nodes mode context owner rest).map (first :: ·)
        else
          .fail first.pos (.notAccepted context owner first.opening)).behind token
termination_by tokens.length

/-- The nodes of a whole program. -/
def program (mode : Mode) (tokens : List Token) : Reading tokens (List Node) :=
  (nodes stop mode .general "program" tokens).andThen fun nodes rest _ =>
    match rest with
    | [] => .done nodes
    | token :: _ => .fail token.pos (.noKeyword token.lexeme)

end Parse

namespace Reading

variable {tokens : List Token} {α β γ : Type}

theorem eq_of_result_eq {first second : Reading tokens α} (result : first.result = second.result)
    (rest : first.rest = second.rest) : first = second := by
  obtain ⟨_, _, _⟩ := first
  cases result
  cases rest
  rfl

theorem andThen_assoc (first : Reading tokens α)
    (next : α → (rest : List Token) → rest <:+ tokens → Reading rest β)
    (last : β → (rest : List Token) → Reading rest γ) :
    (first.andThen next).andThen (fun value rest _ => last value rest) =
      first.andThen fun value rest suffix =>
        (next value rest suffix).andThen fun value rest _ => last value rest := by
  obtain ⟨_ | value, rest, suffix⟩ := first
  · rfl
  · cases outcome : (next value rest suffix).result <;>
      exact eq_of_result_eq (by simp only [andThen, outcome]) (by simp only [andThen, outcome])

theorem behind_andThen (token : Token) (first : Reading tokens α)
    (last : α → (rest : List Token) → Reading rest β) :
    (first.behind token).andThen (fun value rest _ => last value rest) =
      (first.andThen fun value rest _ => last value rest).behind token := by
  obtain ⟨_ | value, rest, suffix⟩ := first <;> rfl

/-- A step on the value may be made before or after what does not ask for it. -/
theorem map_andThen {f : α → α} {last : α → (rest : List Token) → Reading rest α}
    (commutes : ∀ value rest, last (f value) rest = (last value rest).map f)
    (first : Reading tokens α) :
    (first.map f).andThen (fun value rest _ => last value rest) =
      (first.andThen fun value rest _ => last value rest).map f := by
  obtain ⟨_ | value, rest, suffix⟩ := first
  · rfl
  · have result := congrArg Reading.result (commutes value rest)
    have left := congrArg Reading.rest (commutes value rest)
    exact eq_of_result_eq result left

end Reading

namespace Parse

/-- One sentence of a block. It is read whole before the block is asked whether it takes it. -/
theorem nodes_cons (stop : Position) (mode : Mode) (context : Context) (owner : String)
    (token : Token) (text : String)
    (values : token.lexeme.Values text) (tokens : List Token) :
    nodes stop mode context owner (token :: tokens) =
      ((node stop mode token tokens fun context owner rest _ =>
          nodes stop mode context owner rest).andThen fun first rest _ =>
        if context.accepts first then (nodes stop mode context owner rest).map (first :: ·)
        else .fail first.pos (.notAccepted context owner first.opening)).behind token := by
  obtain ⟨lexeme, pos⟩ := token
  rcases values with rfl | rfl <;> rw [nodes]

/-- The nodes of a block together with the closing brace behind them. -/
def closing (stop : Position) (owner : String) {tokens : List Token}
    (nodes : Reading tokens (List Node)) : Reading tokens (List Node) :=
  nodes.andThen fun nodes rest _ => (closed stop owner rest).map fun _ => nodes

variable (stop : Position) (mode : Mode)

/-- One node of a block, from the token that begins it. -/
def nodeIn (context : Context) (owner : String) (token : Token) (tokens : List Token) :
    Reading (token :: tokens) Node :=
  ((node stop mode token tokens fun context owner rest _ =>
      nodes stop mode context owner rest).andThen fun first _ _ =>
    if context.accepts first then .done first
    else .fail first.pos (.notAccepted context owner first.opening)).behind token

theorem rest_nodeIn (context : Context) (owner : String) (token : Token) (tokens : List Token) :
    (nodeIn stop mode context owner token tokens).rest <:+ tokens := by
  rw [nodeIn, Reading.behind_rest]
  exact Reading.suffix _

/-- The nodes of a block are one node and the others, whatever comes behind them. -/
theorem nodes_cons_andThen (last : List Node → (rest : List Token) → Reading rest (List Node))
    (commutes : ∀ (first : Node) nodes rest,
      last (first :: nodes) rest = (last nodes rest).map (first :: ·))
    (context : Context) (owner : String) {token : Token} {text : String}
    (values : token.lexeme.Values text) (tokens : List Token) :
    (nodes stop mode context owner (token :: tokens)).andThen
        (fun nodes rest _ => last nodes rest) =
      (nodeIn stop mode context owner token tokens).andThen fun first rest _ =>
        ((nodes stop mode context owner rest).andThen fun nodes rest _ => last nodes rest).map
          (first :: ·) := by
  let others (first : Node) (rest : List Token) : Reading rest (List Node) :=
    ((nodes stop mode context owner rest).andThen fun nodes rest _ => last nodes rest).map
      (first :: ·)
  rw [nodes_cons stop mode context owner token text values, nodeIn, Reading.behind_andThen,
    Reading.behind_andThen _ _ others, Reading.andThen_assoc, Reading.andThen_assoc _ _ others]
  congr
  funext first rest suffix
  split
  · exact Reading.map_andThen (commutes first) _
  · rfl

/-- The nodes of a block, up to and with the closing brace. -/
def body (context : Context) (owner : String) (tokens : List Token) : Reading tokens (List Node) :=
  closing stop owner (nodes stop mode context owner tokens)

theorem body_cons (context : Context) (owner : String) {token : Token} {text : String}
    (values : token.lexeme.Values text) (tokens : List Token) :
    body stop mode context owner (token :: tokens) =
      (nodeIn stop mode context owner token tokens).andThen fun first rest _ =>
        (body stop mode context owner rest).map (first :: ·) := by
  refine nodes_cons_andThen stop mode
    (fun nodes rest => (closed stop owner rest).map fun _ => nodes) (fun first nodes rest => ?_) context owner values tokens
  obtain ⟨_ | _, _, _⟩ := closed stop owner rest <;> rfl

/-- Behind the nodes of a program there is nothing. -/
def finish (nodes : List Node) : (rest : List Token) → Reading rest (List Node)
  | [] => .done nodes
  | token :: _ => .fail token.pos (.noKeyword token.lexeme)

theorem program_eq (tokens : List Token) :
    program stop mode tokens =
      (nodes stop mode .general "program" tokens).andThen fun nodes rest _ =>
        finish nodes rest := by
  rw [program]
  congr
  funext nodes rest _
  cases rest <;> rfl

theorem program_cons {token : Token} {text : String} (values : token.lexeme.Values text)
    (tokens : List Token) :
    program stop mode (token :: tokens) =
      (nodeIn stop mode .general "program" token tokens).andThen fun first rest _ =>
        (program stop mode rest).map (first :: ·) := by
  have commutes : ∀ (first : Node) nodes rest,
      finish (first :: nodes) rest = (finish nodes rest).map (first :: ·) := by
    intro first nodes rest
    cases rest <;> rfl
  simp only [program_eq]
  exact nodes_cons_andThen stop mode finish commutes .general "program" values tokens

end Parse

end Pagewright
