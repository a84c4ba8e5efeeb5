import Pagewright.Position

set_option autoImplicit false

namespace Pagewright

/-- Keywords are words like any other here, so that a keyword can still name a table or a field where
a name is asked for. -/
inductive Lexeme where
  /-- A bare run of characters. -/
  | word (text : String)
  /-- A quoted literal, decoded and without its quotes. -/
  | literal (text : String)
  | openBrace
  | closeBrace
  | endOfInput
deriving DecidableEq, Repr, Inhabited

/-- How a diagnostic names what it found. -/
def Lexeme.describe : Lexeme → String
  | .word text => "'" ++ text ++ "'"
  | .literal text => "\"" ++ text ++ "\""
  | .openBrace => "'\x7b'"
  | .closeBrace => "'\x7d'"
  | .endOfInput => "end of input"

/-- A lexeme and the position of its first character. -/
structure Token where
  lexeme : Lexeme
  pos : Position
deriving DecidableEq, Repr, Inhabited

end Pagewright
