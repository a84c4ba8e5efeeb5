import Pagewright.Settings

set_option autoImplicit false

namespace Pagewright

/-- A selector and its declarations, property and value. -/
structure Rule where
  selector : String
  declarations : List (String × String)
deriving DecidableEq, Repr, Inhabited

namespace Rule

/-- Characters that could end a declaration, a rule or the style element. -/
def isDelimiter (c : Char) : Bool :=
  c == '{' || c == '}' || c == ';' || c == '<' || c == '>'

/-- A value without the characters that could end it. -/
def sanitize (value : String) : String :=
  String.ofList (value.toList.filter fun c => !isDelimiter c)

def renderDeclaration (declaration : String × String) : String :=
  declaration.1 ++ ":" ++ sanitize declaration.2

def render (rule : Rule) : String :=
  rule.selector ++ "\x7b" ++ ";".intercalate (rule.declarations.map renderDeclaration) ++ "\x7d\n"

def renderAll (rules : List Rule) : String :=
  String.join (rules.map render)

end Rule

def pixels (size : UInt32) : String := toString size.toNat ++ "px"

/-- The rules of every page, with the sizes and the font of the style. -/
def Style.rules (style : Style) : List Rule :=
  [⟨"body", [("font-family", style.fontFamily), ("padding", pixels style.padding)]⟩,
    ⟨".col", [("display", "flex"), ("flex-direction", "column"), ("gap", pixels style.gap)]⟩,
    ⟨".row", [("display", "flex"), ("flex-direction", "row"), ("gap", pixels style.gap)]⟩,
    ⟨".item", [("display", "flex"), ("align-items", "center"), ("gap", pixels style.gap)]⟩,
    ⟨"button", [("padding", "6px 12px")]⟩]

end Pagewright
