import Pagewright.Json
import Pagewright.Node
import Pagewright.Token

set_option autoImplicit false

namespace Pagewright

def Position.members (pos : Position) : List (String × Json) :=
  [("line", .number pos.line), ("col", .number pos.col)]

def Lexeme.json : Lexeme → Json
  | .word text => .object [("Word", .string text)]
  | .literal text => .object [("Str", .string text)]
  | .openBrace => .string "LBrace"
  | .closeBrace => .string "RBrace"
  | .endOfInput => .string "Eof"

def Token.json (token : Token) : Json :=
  .object (("kind", token.lexeme.json) :: token.pos.members)

def Field.json (field : Field) : Json :=
  .object (("name", .string field.name) :: field.pos.members)

def Statement.members : Statement → List (String × Json)
  | .insert table source => [("table", .string table), ("value", .string source)]
  | .refresh table => [("table", .string table)]
  | .delete table => [("table", .string table)]
  | .update table source =>
    [("table", .string table), ("value", (source.map Json.string).getD .null)]
  | .condition text => [("condition", .string text)]

namespace Node

/-- A node of a type, with its own members inside `kind`. -/
def jsonOf (type : String) (pos : Position) (members : List (String × Json)) : Json :=
  .object (("kind", .object (("type", .string type) :: members)) :: pos.members)

mutual

def json : Node → Json
  | .app pos name => jsonOf "app" pos [("name", .string name)]
  | .block pos kind body => jsonOf kind.keyword pos [("body", .array (jsonAll body))]
  | .text pos value => jsonOf "text" pos [("value", .string value)]
  | .input pos kind id => jsonOf "input" pos [("kind", .string kind), ("id", .string id)]
  | .button pos label handler =>
    jsonOf "button" pos [("label", .string label), ("handler", .string handler)]
  | .list pos shown body =>
    jsonOf "list" pos [("table", .string shown), ("body", .array (jsonAll body))]
  | .table pos name fields =>
    jsonOf "table" pos [("name", .string name), ("fields", .array (fields.map Field.json))]
  | .function pos name body =>
    jsonOf "fn" pos [("name", .string name), ("body", .array (jsonAll body))]
  | .statement pos step => jsonOf step.keyword.spelling pos step.members
  | .raw pos token => jsonOf "raw" pos [("token", .string token)]

def jsonAll : List Node → List Json
  | [] => []
  | node :: rest => node.json :: jsonAll rest

end

end Node

/-- The text of a token sequence. -/
def dumpTokens (tokens : List Token) : String :=
  (Json.array (tokens.map Token.json)).pretty

/-- The text of a program. -/
def dumpNodes (nodes : List Node) : String :=
  (Json.array (Node.jsonAll nodes)).pretty

end Pagewright
