import Pagewright.Diagnostic
import Pagewright.Node

set_option autoImplicit false

namespace Pagewright

/-- What to do with a word that begins no sentence. -/
inductive Mode where
  /-- Keep it as a raw node, without the brace group that may follow it. -/
  | permissive
  | strict
deriving DecidableEq, Repr, Inhabited

/-- The text of a bare word. -/
def Lexeme.name? : Lexeme → Option String
  | .word text => some text
  | _ => none

/-- The text of a bare word or a literal. -/
def Lexeme.value? : Lexeme → Option String
  | .word text => some text
  | .literal text => some text
  | _ => none

/-- Puts an end of input behind the tokens, one column behind the beginning of the last, unless the
last is an end. -/
def withEnd (tokens : List Token) : List Token :=
  if tokens.getLast?.map Token.lexeme = some .endOfInput then tokens
  else
    tokens ++ [⟨.endOfInput,
      match tokens.getLast? with
      | some last => ⟨last.pos.line, last.pos.col + 1⟩
      | none => .start⟩]

theorem getLast?_withEnd (tokens : List Token) :
    (withEnd tokens).getLast?.map Token.lexeme = some .endOfInput := by
  unfold withEnd
  split
  · assumption
  · rw [List.getLast?_concat]
    rfl

/-- Tokens of which the last is an end of input. There may be others before it. -/
structure Input where
  tokens : List Token
  ended : tokens.getLast?.map Token.lexeme = some .endOfInput

/-- What reading from a place on yields, and the place where it stops, also when it fails. -/
structure Attempt (start : Nat) (α : Type) where
  result : Except Diagnostic α
  place : Nat
  forward : start ≤ place

namespace Attempt

variable {start : Nat} {α β : Type}

/-- Reads nothing. -/
def done (value : α) : Attempt start α := ⟨.ok value, start, Nat.le_refl start⟩

/-- Fails at the token of the place. -/
def fail (pos : Position) (fault : ParseFault) : Attempt start α :=
  ⟨.error (.parse pos fault), start, Nat.le_refl start⟩

/-- The attempt, seen from a place before the one it starts from. -/
def since {next : Nat} (earlier : start ≤ next) (attempt : Attempt next α) : Attempt start α :=
  ⟨attempt.result, attempt.place, Nat.le_trans earlier attempt.forward⟩

def map (f : α → β) (attempt : Attempt start α) : Attempt start β :=
  ⟨attempt.result.map f, attempt.place, attempt.forward⟩

/-- Goes on from the place where a successful attempt stops. -/
def andThen (first : Attempt start α)
    (next : (value : α) → first.result = .ok value → Attempt first.place β) : Attempt start β :=
  match read : first.result with
  | .error diagnostic => ⟨.error diagnostic, first.place, first.forward⟩
  | .ok value => (next value read).since first.forward

theorem andThen_of_error {first : Attempt start α} {diagnostic : Diagnostic}
    (next : (value : α) → first.result = .ok value → Attempt first.place β)
    (failed : first.result = .error diagnostic) :
    first.andThen next = ⟨.error diagnostic, first.place, first.forward⟩ := by
  unfold andThen
  split
  · rename_i other same
    cases failed.symm.trans same
    rfl
  · rename_i read
    cases failed.symm.trans read

theorem andThen_of_ok {first : Attempt start α} {value : α}
    (next : (value : α) → first.result = .ok value → Attempt first.place β)
    (read : first.result = .ok value) :
    first.andThen next = (next value read).since first.forward := by
  unfold andThen
  split
  · rename_i failed
    cases read.symm.trans failed
  · rename_i other same
    cases read.symm.trans same
    rfl

/-- What is read in two steps is read as far as the first step goes. -/
theorem lt_place_andThen {first : Attempt start α}
    {next : (value : α) → first.result = .ok value → Attempt first.place β} {result : β}
    (passes : ∀ value, first.result = .ok value → start < first.place)
    (read : (first.andThen next).result = .ok result) : start < (first.andThen next).place := by
  cases begun : first.result with
  | error diagnostic =>
    rw [andThen_of_error next begun] at read
    cases read
  | ok value =>
    rw [andThen_of_ok next begun]
    exact Nat.lt_of_lt_of_le (passes value begun) (next value begun).forward

end Attempt

namespace Input

variable (input : Input)

theorem length_pos : 0 < input.tokens.length := by
  obtain ⟨_, found, -⟩ := Option.map_eq_some_iff.mp input.ended
  exact List.length_pos_of_mem (List.mem_of_getLast? found)

/-- The token at a place. Behind the last one it is the last one again. -/
def peek (place : Nat) : Token :=
  have inside : min place (input.tokens.length - 1) < input.tokens.length :=
    Nat.lt_of_le_of_lt (Nat.min_le_right ..) (Nat.sub_one_lt_of_lt input.length_pos)
  input.tokens[min place (input.tokens.length - 1)]

/-- The place behind a token. Nothing is behind the last. -/
def advance (place : Nat) : Nat :=
  if place < input.tokens.length then place + 1 else place

theorem le_advance (place : Nat) : place ≤ input.advance place := by
  unfold advance
  split <;> omega

/-- Only an end is seen at the last token and behind it. -/
theorem lt_length_of_not_end {place : Nat}
    (goesOn : (input.peek place).lexeme ≠ .endOfInput) : place < input.tokens.length := by
  refine Decidable.byContradiction fun behind => goesOn ?_
  obtain ⟨last, found, isEnd⟩ := Option.map_eq_some_iff.mp input.ended
  have atLast : min place (input.tokens.length - 1) = input.tokens.length - 1 := by omega
  rw [List.getLast?_eq_getElem?, List.getElem?_eq_getElem (Nat.sub_one_lt_of_lt input.length_pos)]
    at found
  refine (congrArg Token.lexeme ?_).trans isEnd
  simp only [peek, atLast]
  exact Option.some.inj found

theorem lt_advance {place : Nat} (goesOn : (input.peek place).lexeme ≠ .endOfInput) :
    place < input.advance place := by
  rw [advance, if_pos (input.lt_length_of_not_end goesOn)]
  exact Nat.lt_succ_self place

/-- Less of the tokens is left at a later place. -/
theorem less_left {place next : Nat} (goesOn : (input.peek place).lexeme ≠ .endOfInput)
    (later : place < next) : input.tokens.length - next < input.tokens.length - place := by
  have := input.lt_length_of_not_end goesOn
  omega

theorem less_behind {place : Nat} (goesOn : (input.peek place).lexeme ≠ .endOfInput) :
    input.tokens.length - input.advance place < input.tokens.length - place :=
  input.less_left goesOn (input.lt_advance goesOn)

/-- Passes the token at the place. -/
def pass {α : Type} (place : Nat) (attempt : Attempt (input.advance place) α) : Attempt place α :=
  attempt.since (input.le_advance place)

/-- One operand of a sentence. -/
def operand (text? : Lexeme → Option String) (construct : Construct) (place : Nat) :
    Attempt place String :=
  match text? (input.peek place).lexeme with
  | some text => input.pass place (.done text)
  | none => .fail (input.peek place).pos (.noOperand construct (input.peek place).lexeme)

/-- A table, field, control or handler name. -/
def name (construct : Construct) (place : Nat) : Attempt place String :=
  input.operand Lexeme.name? construct place

/-- A text that may be quoted. -/
def value (construct : Construct) (place : Nat) : Attempt place String :=
  input.operand Lexeme.value? construct place

def opened (owner : String) (place : Nat) : Attempt place Unit :=
  if (input.peek place).lexeme = .openBrace then
    input.pass place (.done ())
  else
    .fail (input.peek place).pos (.notOpened owner (input.peek place).lexeme)

/-- The field names of a table, up to and with the closing brace. -/
def fields (place : Nat) : Attempt place (List Field) :=
  match found : (input.peek place).lexeme with
  | .closeBrace => input.pass place (.done [])
  | .endOfInput => .fail (input.peek place).pos (.notClosed "table")
  | .word name =>
    have := input.less_behind (by rw [found]; nofun)
    input.pass place ((fields (input.advance place)).map (⟨name, (input.peek place).pos⟩ :: ·))
  | .openBrace => .fail (input.peek place).pos (.noOperand .fieldName .openBrace)
  | .literal text => .fail (input.peek place).pos (.noOperand .fieldName (.literal text))
termination_by input.tokens.length - place

/-- The rest of a brace group, with further braces open inside it. -/
def group (owner : String) (depth : Nat) (place : Nat) : Attempt place Unit :=
  match found : (input.peek place).lexeme with
  | .endOfInput => .fail (input.peek place).pos (.notClosed owner)
  | .openBrace =>
    have := input.less_behind (by rw [found]; nofun)
    input.pass place (group owner (depth + 1) (input.advance place))
  | .closeBrace =>
    match depth with
    | 0 => input.pass place (.done ())
    | depth + 1 =>
      have := input.less_behind (by rw [found]; nofun)
      input.pass place (group owner depth (input.advance place))
  | .word _ | .literal _ =>
    have := input.less_behind (by rw [found]; nofun)
    input.pass place (group owner depth (input.advance place))
termination_by input.tokens.length - place

/-- A sentence that begins with something unknown. -/
def raw (mode : Mode) (pos : Position) (token : String) (place : Nat) : Attempt place Node :=
  match mode with
  | .strict => .fail pos (.unknownKeyword token)
  | .permissive =>
    if (input.peek place).lexeme = .openBrace then
      ((input.opened token place).andThen fun _ _ =>
        input.group ("'" ++ token ++ "'") 0 _).map fun _ => .raw pos token
    else
      .done (.raw pos token)

/-- Reads the nodes of a block, up to and with the closing brace, from a place that is not before
the given one. -/
abbrev BodyReader (place : Nat) : Type :=
  Context → String → (inner : Nat) → place ≤ inner → Attempt inner (List Node)

/-- The nodes between two braces. -/
def block (context : Context) (owner : String) (place : Nat) (body : BodyReader place) :
    Attempt place (List Node) :=
  (input.opened owner place).andThen fun _ _ => body context owner _ (Attempt.forward _)

/-- The nodes between two braces, none if no brace follows. -/
def optionalBlock (context : Context) (owner : String) (place : Nat) (body : BodyReader place) :
    Attempt place (List Node) :=
  if (input.peek place).lexeme = .openBrace then input.block context owner place body else .done []

/-- The source that an update may name. -/
def optionalSource (place : Nat) : Attempt place (Option String) :=
  if (input.peek place).lexeme = .word "from" then
    input.pass place ((input.name .valueSource _).map some)
  else
    .done none

/-- What follows a keyword. -/
def sentence (keyword : Keyword) (pos : Position) (place : Nat) (body : BodyReader place) :
    Attempt place Node :=
  match keyword with
  | .app => (input.value .applicationName place).map (.app pos)
  | .block kind => (input.block kind.context kind.keyword place body).map (.block pos kind)
  | .text => (input.value .textValue place).map (.text pos)
  | .input =>
    (input.name .inputKind place).andThen fun kind _ =>
      (input.name .inputId _).map (.input pos kind)
  | .button =>
    (input.value .buttonLabel place).andThen fun label _ =>
      (input.name .handlerName _).map (.button pos label)
  | .list =>
    (input.name .tableName place).andThen fun table _ =>
      (input.optionalBlock .list "list" _ fun context owner inner within =>
        body context owner inner (Nat.le_trans (Attempt.forward _) within)).map (.list pos table)
  | .table =>
    (input.name .tableName place).andThen fun table _ =>
      (input.opened "table" _).andThen fun _ _ => (input.fields _).map (.table pos table)
  | .function =>
    (input.name .functionName place).andThen fun function _ =>
      (input.block .function "fn" _ fun context owner inner within =>
        body context owner inner (Nat.le_trans (Attempt.forward _) within)).map
          (.function pos function)
  | .insert =>
    (input.name .tableName place).andThen fun table _ =>
      (input.name .valueSource _).map fun source => .statement pos (.insert table source)
  | .refresh => (input.name .tableName place).map fun table => .statement pos (.refresh table)
  | .delete => (input.name .tableName place).map fun table => .statement pos (.delete table)
  | .update =>
    (input.name .tableName place).andThen fun table _ =>
      (input.optionalSource _).map fun source => .statement pos (.update table source)
  | .condition =>
    (input.value .condition place).map fun text => .statement pos (.condition text)

/-- The node that a word begins. -/
def ofWord (mode : Mode) (word : String) (pos : Position) (place : Nat) (body : BodyReader place) :
    Attempt place Node :=
  match Keyword.ofWord? word with
  | some keyword => input.sentence keyword pos place body
  | none => input.raw mode pos word place

/-- The node that begins at the place. Its blocks are read from later places. -/
def node (mode : Mode) (place : Nat)
    (body : Context → String → (inner : Nat) → place < inner → Attempt inner (List Node)) :
    Attempt place Node :=
  match found : (input.peek place).lexeme with
  | .word word =>
    have goesOn : (input.peek place).lexeme ≠ .endOfInput := by rw [found]; nofun
    input.pass place (input.ofWord mode word (input.peek place).pos _
      fun context owner inner within =>
        body context owner inner (Nat.lt_of_lt_of_le (input.lt_advance goesOn) within))
  | .literal text =>
    input.pass place (input.raw mode (input.peek place).pos ("\"" ++ text ++ "\"") _)
  | .openBrace => .fail (input.peek place).pos (.noKeyword .openBrace)
  | .closeBrace => .fail (input.peek place).pos (.noKeyword .closeBrace)
  | .endOfInput => .fail (input.peek place).pos (.noKeyword .endOfInput)

/-- A node of a block. Whether the block takes it is asked when it has been read whole. -/
def nodeIn (mode : Mode) (context : Context) (owner : String) (place : Nat)
    (body : Context → String → (inner : Nat) → place < inner → Attempt inner (List Node)) :
    Attempt place Node :=
  (input.node mode place body).andThen fun node _ =>
    if context.accepts node then .done node
    else .fail node.pos (.notAccepted context owner node.opening)

theorem lt_place_of_node_eq_ok {mode : Mode} {place : Nat}
    {body : Context → String → (inner : Nat) → place < inner → Attempt inner (List Node)}
    {node : Node} (read : (input.node mode place body).result = .ok node) :
    place < (input.node mode place body).place := by
  revert read
  unfold Input.node
  split
  · rename_i found
    intro _
    exact Nat.lt_of_lt_of_le (input.lt_advance (by rw [found]; nofun)) (Attempt.forward _)
  · rename_i found
    intro _
    exact Nat.lt_of_lt_of_le (input.lt_advance (by rw [found]; nofun)) (Attempt.forward _)
  · exact nofun
  · exact nofun
  · exact nofun

theorem lt_place_of_nodeIn_eq_ok {mode : Mode} {context : Context} {owner : String} {place : Nat}
    {body : Context → String → (inner : Nat) → place < inner → Attempt inner (List Node)}
    {node : Node} (read : (input.nodeIn mode context owner place body).result = .ok node) :
    place < (input.nodeIn mode context owner place body).place :=
  Attempt.lt_place_andThen (fun _ => input.lt_place_of_node_eq_ok) read

/-- The nodes of a block up to and with the closing brace. -/
def body (mode : Mode) (context : Context) (owner : String) (place : Nat) :
    Attempt place (List Node) :=
  if (input.peek place).lexeme = .closeBrace then
    input.pass place (.done [])
  else if ended : (input.peek place).lexeme = .endOfInput then
    .fail (input.peek place).pos (.notClosed owner)
  else
    (input.nodeIn mode context owner place fun context owner inner later =>
        have := input.less_left ended later
        body mode context owner inner).andThen fun first read =>
      have := input.less_left ended (input.lt_place_of_nodeIn_eq_ok read)
      (body mode context owner _).map (first :: ·)
termination_by input.tokens.length - place

/-- The nodes up to an end. -/
def program (mode : Mode) (place : Nat) : Attempt place (List Node) :=
  if ended : (input.peek place).lexeme = .endOfInput then
    .done []
  else
    (input.nodeIn mode .general "program" place fun context owner inner _ =>
        input.body mode context owner inner).andThen fun first read =>
      have := input.less_left ended (input.lt_place_of_nodeIn_eq_ok read)
      (program mode _).map (first :: ·)
termination_by input.tokens.length - place

end Input

/-- Tokens and the place in them from which they are read on. -/
structure Parser where
  input : Input
  place : Nat

namespace Parser

/-- A parser at the first of the tokens. -/
def ofTokens (tokens : List Token) : Parser := ⟨⟨withEnd tokens, getLast?_withEnd tokens⟩, 0⟩

/-- The nodes up to an end, and the parser as it is left, also after a failure. -/
def parse (parser : Parser) (mode : Mode) : Except Diagnostic (List Node) × Parser :=
  let attempt := parser.input.program mode parser.place
  (attempt.result, { parser with place := attempt.place })

/-- The answers of a parser that is asked once for each mode. -/
def repeated (parser : Parser) : List Mode → List (Except Diagnostic (List Node))
  | [] => []
  | mode :: modes => (parser.parse mode).1 :: repeated (parser.parse mode).2 modes

end Parser

/-- The nodes of a token sequence. -/
def parseTokens (mode : Mode) (tokens : List Token) : Except Diagnostic (List Node) :=
  ((Parser.ofTokens tokens).parse mode).1

end Pagewright
