import Pagewright.Json.Dump
import Pagewright.Proofs.JsonReading

set_option autoImplicit false

namespace Pagewright

namespace Json

section Members

/-- The value of the only member with the key. -/
def member? (key : String) : Json → Option Json
  | .object members =>
    match members.filter fun member => member.1 == key with
    | [member] => some member.2
    | _ => none
  | _ => none

def text? : Json → Option String
  | .string text => some text
  | _ => none

def number? : Json → Option Nat
  | .number value => some value
  | _ => none

def items? : Json → Option (List Json)
  | .array items => some items
  | _ => none

/-- The text of the only member with the key. -/
def memberText? (json : Json) (key : String) : Option String := (json.member? key).bind text?

theorem sizeOf_member?_lt {key : String} {json value : Json}
    (found : json.member? key = some value) :
    sizeOf value < sizeOf json := by
  unfold member? at found
  split at found
  · rename_i members
    split at found
    · rename_i member only
      cases found
      have listed : member ∈ members := by
        have kept : member ∈ members.filter fun member => member.1 == key := by
          rw [only]
          exact .head _
        exact (List.mem_filter.mp kept).1
      have smaller := List.sizeOf_lt_of_mem listed
      have inside : sizeOf member.2 < sizeOf member := by
        rw [Prod.mk.sizeOf_spec member.1 member.2]
        omega
      simp only [object.sizeOf_spec]
      omega
    · cases found
  · cases found

end Members

end Json

def Position.ofJson? (json : Json) : Option Position := do
  some ⟨← (json.member? "line").bind Json.number?, ← (json.member? "col").bind Json.number?⟩

def Lexeme.ofJson? : Json → Option Lexeme
  | .object [("Word", .string text)] => some (.word text)
  | .object [("Str", .string text)] => some (.literal text)
  | .string "LBrace" => some .openBrace
  | .string "RBrace" => some .closeBrace
  | .string "Eof" => some .endOfInput
  | _ => none

def Token.ofJson? (json : Json) : Option Token := do
  some ⟨← (json.member? "kind").bind Lexeme.ofJson?, ← Position.ofJson? json⟩

def Field.ofJson? (json : Json) : Option Field := do
  some ⟨← json.memberText? "name", ← Position.ofJson? json⟩

/-- A text or nothing. -/
def sourceOf? : Json → Option (Option String)
  | .null => some none
  | .string text => some (some text)
  | _ => none

theorem mapM_json {α : Type} {write : α → Json} {read : Json → Option α}
    (reads : ∀ item, read (write item) = some item) (items : List α) :
    (items.map write).mapM read = some items := by
  have each : (items.map write).mapM read = some (items.map id) :=
    mapM_map_eq_some fun item _ => reads item
  rwa [List.map_id] at each

theorem Field.ofJson?_json (field : Field) : Field.ofJson? field.json = some field := rfl

theorem Token.ofJson?_json (token : Token) : Token.ofJson? token.json = some token := by
  obtain ⟨lexeme, pos⟩ := token
  cases lexeme <;> rfl

namespace Node

mutual

/-- The kind of a node tells its type and holds its other members. -/
def ofJson? (json : Json) : Option Node :=
  match found : json.member? "kind" with
  | none => none
  | some kind =>
    have := Json.sizeOf_member?_lt found
    (Position.ofJson? json).bind fun pos => ofKind? pos kind
termination_by (sizeOf json, 0)

/-- The node of a position, from the object that tells its type. -/
def ofKind? (pos : Position) (kind : Json) : Option Node := do
  match ← kind.memberText? "type" with
  | "app" => some (.app pos (← kind.memberText? "name"))
  | "ui" => some (.block pos .ui (← body? kind))
  | "column" => some (.block pos .column (← body? kind))
  | "row" => some (.block pos .row (← body? kind))
  | "item" => some (.block pos .item (← body? kind))
  | "db" => some (.block pos .db (← body? kind))
  | "text" => some (.text pos (← kind.memberText? "value"))
  | "input" => some (.input pos (← kind.memberText? "kind") (← kind.memberText? "id"))
  | "button" => some (.button pos (← kind.memberText? "label") (← kind.memberText? "handler"))
  | "list" => some (.list pos (← kind.memberText? "table") (← body? kind))
  | "table" =>
    let fields ← (kind.member? "fields").bind Json.items?
    some (.table pos (← kind.memberText? "name") (← fields.mapM Field.ofJson?))
  | "fn" => some (.function pos (← kind.memberText? "name") (← body? kind))
  | "insert" =>
    some (.statement pos (.insert (← kind.memberText? "table") (← kind.memberText? "value")))
  | "refresh" => some (.statement pos (.refresh (← kind.memberText? "table")))
  | "delete" => some (.statement pos (.delete (← kind.memberText? "table")))
  | "update" =>
    let source ← (kind.member? "value").bind sourceOf?
    some (.statement pos (.update (← kind.memberText? "table") source))
  | "where" => some (.statement pos (.condition (← kind.memberText? "condition")))
  | "raw" => some (.raw pos (← kind.memberText? "token"))
  | _ => none
termination_by (sizeOf kind, 1)

def body? (kind : Json) : Option (List Node) :=
  match found : kind.member? "body" with
  | some (.array items) =>
    have := Json.sizeOf_member?_lt found
    ofJsonAll? items
  | _ => none
termination_by (sizeOf kind, 0)
decreasing_by
  simp only [Json.array.sizeOf_spec] at this
  exact Prod.Lex.left _ _ (by omega)

def ofJsonAll? : List Json → Option (List Node)
  | [] => some []
  | first :: rest => do some ((← ofJson? first) :: (← ofJsonAll? rest))
termination_by items => (sizeOf items, 0)

end

theorem ofJson?_eq {json kind : Json} {pos : Position} (told : json.member? "kind" = some kind)
    (stands : Position.ofJson? json = some pos) : ofJson? json = ofKind? pos kind := by
  rw [ofJson?]
  split
  · rename_i missing
    rw [told] at missing
    cases missing
  · rename_i found
    rw [told] at found
    cases found
    rw [stands, Option.bind_some]

theorem ofJson?_jsonOf (type : String) (pos : Position) (members : List (String × Json)) :
    ofJson? (jsonOf type pos members) = ofKind? pos (.object (("type", .string type) :: members)) :=
  ofJson?_eq rfl rfl

theorem body?_eq {kind : Json} {items : List Json}
    (found : kind.member? "body" = some (.array items)) : body? kind = ofJsonAll? items := by
  rw [body?]
  split
  · rename_i other
    rw [found] at other
    cases other
    rfl
  · rename_i none
    exact (none _ found).elim

mutual

theorem ofJson?_json : (node : Node) → ofJson? node.json = some node
  | .app pos name => by
    rw [json, ofJson?_jsonOf, ofKind?]
    rfl
  | .block pos kind body => by
    rw [json, ofJson?_jsonOf, ofKind?, body?_eq rfl, ofJsonAll?_jsonAll body]
    cases kind <;> rfl
  | .text pos value => by
    rw [json, ofJson?_jsonOf, ofKind?]
    rfl
  | .input pos kind id => by
    rw [json, ofJson?_jsonOf, ofKind?]
    rfl
  | .button pos label handler => by
    rw [json, ofJson?_jsonOf, ofKind?]
    rfl
  | .list pos shown body => by
    rw [json, ofJson?_jsonOf, ofKind?, body?_eq rfl, ofJsonAll?_jsonAll body]
    rfl
  | .table pos name fields => by
    rw [json, ofJson?_jsonOf, ofKind?]
    change ((fields.map Field.json).mapM Field.ofJson?).bind
      (fun read => some (Node.table pos name read)) = _
    rw [mapM_json Field.ofJson?_json, Option.bind_some]
  | .function pos name body => by
    rw [json, ofJson?_jsonOf, ofKind?, body?_eq rfl, ofJsonAll?_jsonAll body]
    rfl
  | .statement pos step => by
    rw [json, ofJson?_jsonOf, ofKind?]
    cases step with
    | update table source => cases source <;> rfl
    | _ => rfl
  | .raw pos token => by
    rw [json, ofJson?_jsonOf, ofKind?]
    rfl

theorem ofJsonAll?_jsonAll : (nodes : List Node) → ofJsonAll? (jsonAll nodes) = some nodes
  | [] => by rw [jsonAll, ofJsonAll?]
  | first :: rest => by
    rw [jsonAll, ofJsonAll?, ofJson?_json first, ofJsonAll?_jsonAll rest]
    rfl

end

end Node

/-- The tokens of a text. -/
def readTokens (text : String) : Option (List Token) := do
  (← (← Json.read text).items?).mapM Token.ofJson?

/-- The nodes of a text. -/
def readNodes (text : String) : Option (List Node) := do
  Node.ofJsonAll? (← (← Json.read text).items?)

theorem readTokens_dumpTokens (tokens : List Token) :
    readTokens (dumpTokens tokens) = some tokens := by
  simp only [readTokens, dumpTokens, Json.read_pretty, Json.items?, Option.bind_eq_bind,
    Option.bind_some, mapM_json Token.ofJson?_json]

theorem readNodes_dumpNodes (nodes : List Node) : readNodes (dumpNodes nodes) = some nodes := by
  simp only [readNodes, dumpNodes, Json.read_pretty, Json.items?, Option.bind_eq_bind,
    Option.bind_some, Node.ofJsonAll?_jsonAll]

/-- What is printed for tokens and for nodes is read back, so it differs where they differ. -/
theorem dumps_read_back :
    (∀ tokens, readTokens (dumpTokens tokens) = some tokens) ∧
    (∀ nodes, readNodes (dumpNodes nodes) = some nodes) ∧
    Function.Injective dumpTokens ∧ Function.Injective dumpNodes := by
  refine ⟨readTokens_dumpTokens, readNodes_dumpNodes, ?_, ?_⟩
  · intro first second same
    have read := readTokens_dumpTokens first
    rw [same, readTokens_dumpTokens] at read
    exact (Option.some.inj read).symm
  · intro first second same
    have read := readNodes_dumpNodes first
    rw [same, readNodes_dumpNodes] at read
    exact (Option.some.inj read).symm

/-- A word that is spelled like the name of a lexeme, and a text that is spelled like nothing. -/
theorem dumps_apart :
    dumpTokens [⟨.word "LBrace", ⟨1, 1⟩⟩] ≠ dumpTokens [⟨.openBrace, ⟨1, 1⟩⟩] ∧
    dumpNodes [.statement ⟨1, 1⟩ (.update "t" (some "null"))] ≠
      dumpNodes [.statement ⟨1, 1⟩ (.update "t" none)] := by
  obtain ⟨-, -, tokens, nodes⟩ := dumps_read_back
  exact ⟨fun same => absurd (tokens same) (by decide), fun same => absurd (nodes same) (by simp)⟩

end Pagewright
