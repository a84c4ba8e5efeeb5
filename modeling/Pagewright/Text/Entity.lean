set_option autoImplicit false

namespace Pagewright.Text.Entity

/-- How one character of a text is written. -/
def encodeText : Char → List Char
  | '&' => ['&', 'a', 'm', 'p', ';']
  | '<' => ['&', 'l', 't', ';']
  | '>' => ['&', 'g', 't', ';']
  | c => [c]

/-- How one character of a quoted attribute value is written. -/
def encodeAttribute : Char → List Char
  | '"' => ['&', 'q', 'u', 'o', 't', ';']
  | '\'' => ['&', '#', '3', '9', ';']
  | c => encodeText c

def escapeText (value : String) : String :=
  String.ofList (value.toList.flatMap encodeText)

def escapeAttribute (value : String) : String :=
  String.ofList (value.toList.flatMap encodeAttribute)

theorem toList_escapeText (value : String) :
    (escapeText value).toList = value.toList.flatMap encodeText := by
  simp [escapeText]

theorem toList_escapeAttribute (value : String) :
    (escapeAttribute value).toList = value.toList.flatMap encodeAttribute := by
  simp [escapeAttribute]

end Pagewright.Text.Entity
