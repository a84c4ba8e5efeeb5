import Pagewright.Text.Entity

set_option autoImplicit false

namespace Pagewright

inductive Markup where
  | element (tag : String) (attributes : List (String × String)) (children : List Markup)
  | text (value : String)
deriving Repr, Inhabited

namespace Markup

/-- Elements without content, which are not closed. -/
def voidTags : List String := ["input", "meta", "br"]

/-- The value of the first attribute of the name. -/
def attributeValue? (name : String) : Markup → Option String
  | .element _ attributes _ => attributes.lookup name
  | .text _ => none

def renderAttribute (entry : String × String) : String :=
  " " ++ entry.1 ++ "=\"" ++ Text.Entity.escapeAttribute entry.2 ++ "\""

def renderOpening (tag : String) (attributes : List (String × String)) : String :=
  "<" ++ tag ++ String.join (attributes.map renderAttribute) ++ ">"

def renderClosing (tag : String) : String := "</" ++ tag ++ ">"

mutual

def render : Markup → String
  | .text value => Text.Entity.escapeText value
  | .element tag attributes children =>
    if voidTags.contains tag then
      renderOpening tag attributes
    else
      renderOpening tag attributes ++ renderAll children ++ renderClosing tag

def renderAll : List Markup → String
  | [] => ""
  | first :: rest => first.render ++ renderAll rest

end

end Markup

end Pagewright
