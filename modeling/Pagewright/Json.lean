import Pagewright.Text.Literal

set_option autoImplicit false

namespace Pagewright

inductive Json where
  | null
  | number (value : Nat)
  | string (text : String)
  | array (items : List Json)
  /-- Members in the order in which they are written. -/
  | object (members : List (String × Json))
deriving Repr, Inhabited

namespace Json

/-- A new line at a depth of two spaces each. -/
def newLine (depth : Nat) : String :=
  "\n" ++ String.ofList (List.replicate (2 * depth) ' ')

mutual

/-- The text of a value that stands at a depth. -/
def render (depth : Nat) : Json → String
  | .null => "null"
  | .number value => toString value
  | .string text => Text.Literal.quote text
  | .array [] => "[]"
  | .array (first :: rest) =>
    "[" ++ newLine (depth + 1) ++ first.render (depth + 1) ++ renderItems depth rest ++
      newLine depth ++ "]"
  | .object [] => "\x7b\x7d"
  | .object (first :: rest) =>
    "\x7b" ++ newLine (depth + 1) ++ renderMember depth first ++ renderMembers depth rest ++
      newLine depth ++ "\x7d"

/-- The items behind the first. -/
def renderItems (depth : Nat) : List Json → String
  | [] => ""
  | item :: rest =>
    "," ++ newLine (depth + 1) ++ item.render (depth + 1) ++ renderItems depth rest

def renderMember (depth : Nat) : String × Json → String
  | (key, value) => Text.Literal.quote key ++ ": " ++ value.render (depth + 1)

/-- The members behind the first. -/
def renderMembers (depth : Nat) : List (String × Json) → String
  | [] => ""
  | member :: rest =>
    "," ++ newLine (depth + 1) ++ renderMember depth member ++ renderMembers depth rest

end

/-- The text of a value on its own. -/
def pretty (value : Json) : String := value.render 0

end Json

end Pagewright
