set_option autoImplicit false

namespace Pagewright.Text.Literal

/-- How one character is written between the quotes. Only the quote, the backslash and the control
characters below the space need an escape. -/
def escape : Char → List Char
  | '"' => ['\\', '"']
  | '\\' => ['\\', '\\']
  | '\x08' => ['\\', 'b']
  | '\x0c' => ['\\', 'f']
  | '\n' => ['\\', 'n']
  | '\r' => ['\\', 'r']
  | '\t' => ['\\', 't']
  | c =>
    if c.toNat < 0x20 then
      ['\\', 'u', '0', '0', Nat.digitChar (c.toNat / 16), Nat.digitChar (c.toNat % 16)]
    else
      [c]

/-- The literal that stands for a text. -/
def quote (text : String) : String :=
  "\"" ++ String.ofList (text.toList.flatMap escape) ++ "\""

/-- A character of a literal inside a script element, where `<` could begin the tag that closes
it. -/
def guardTag (c : Char) : List Char :=
  if c = '<' then ['\\', 'u', '0', '0', '3', 'c'] else [c]

/-- The literal that stands for a text inside a script element. -/
def script (text : String) : String :=
  String.ofList ((quote text).toList.flatMap guardTag)

theorem toList_quote (text : String) :
    (quote text).toList = '"' :: (text.toList.flatMap escape ++ ['"']) := by
  simp [quote]

theorem toList_script (text : String) :
    (script text).toList = (quote text).toList.flatMap guardTag := by
  simp [script]

end Pagewright.Text.Literal
