import Pagewright.Compile
import Pagewright.Failure

set_option autoImplicit false

namespace Pagewright

variable {m : Type → Type} [Monad m] (host : Host m)

/-- Makes the directory that a path stands in. -/
def createParent (path : String) : Command m Unit :=
  match (Path.ofText path).parent? with
  | none => return ()
  | some parent =>
    if parent.isEmpty then return () else .onFiles (host.createDirectories parent)

/-- Compiles a source file into a document file. Nothing is written unless the source compiles. -/
def build (source : String) (settings : Settings) : Command m Compilation := do
  let text ← .onFiles (host.readText source)
  let compilation ← .onSource (compileFull settings text)
  createParent host settings.output
  .onFiles (host.writeText settings.output compilation.page.render)
  return compilation

end Pagewright
