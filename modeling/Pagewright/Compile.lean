import Pagewright.Token.Scan
import Pagewright.Draft.Finish

set_option autoImplicit false

namespace Pagewright

/-- The nodes of a source text. -/
def parse (mode : Mode) (source : String) : Except Diagnostic (List Node) :=
  tokenize source >>= parseTokens mode

/-- The page of a source text. -/
def compile (settings : Settings) (source : String) : Except Diagnostic Page :=
  parse settings.mode source >>= generate settings

/-- A compile with all that it went through. -/
structure Compilation where
  tokens : List Token
  nodes : List Node
  page : Page
deriving Repr, Inhabited

def compileFull (settings : Settings) (source : String) : Except Diagnostic Compilation := do
  let tokens ← tokenize source
  let nodes ← parseTokens settings.mode tokens
  let page ← generate settings nodes
  .ok ⟨tokens, nodes, page⟩

end Pagewright
