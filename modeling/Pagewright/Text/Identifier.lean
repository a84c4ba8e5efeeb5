set_option autoImplicit false

namespace Pagewright.Text

/-- What an identifier may begin with: an ASCII letter, an underscore or a dollar sign. -/
def startsIdentifier (c : Char) : Bool :=
  c.isAlpha || c == '_' || c == '$'

def continuesIdentifier (c : Char) : Bool :=
  c.isAlphanum || c == '_' || c == '$'

def isIdentifier (name : String) : Bool :=
  match name.toList with
  | [] => false
  | c :: cs => startsIdentifier c && cs.all continuesIdentifier

/-- Words that cannot name a global function of a script: reserved words, and globals that a
function declaration cannot replace. -/
def reservedWords : List String :=
  ["await", "break", "case", "catch", "class", "const", "continue", "debugger", "default",
    "delete", "do", "else", "enum", "export", "extends", "false", "finally", "for", "function",
    "if", "import", "in", "instanceof", "let", "new", "null", "return", "static", "super",
    "switch", "this", "throw", "true", "try", "typeof", "var", "void", "while", "with", "yield",
    "undefined", "NaN", "Infinity", "eval", "arguments", "globalThis", "window", "document",
    "location", "top"]

/-- Whether a global function may have the name. -/
def isCallable (name : String) : Bool :=
  isIdentifier name && !reservedWords.contains name

end Pagewright.Text
