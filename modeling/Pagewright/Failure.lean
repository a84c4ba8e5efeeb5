import Pagewright.Diagnostic
import Pagewright.Files

set_option autoImplicit false

namespace Pagewright

/-- Why a command fails. -/
inductive Failure where
  | file (fault : FileFault)
  /-- The settings file cannot be read as settings, for the reason of its reader. -/
  | settings (reason : String)
  | compile (diagnostic : Diagnostic)
deriving DecidableEq, Repr

def Failure.message : Failure → String
  | .file fault => "io error: " ++ fault.message
  | .settings reason => "config error: " ++ reason
  | .compile diagnostic => diagnostic.report.display

/-- A step of a command. -/
abbrev Command (m : Type → Type) (α : Type) : Type := ExceptT Failure m α

namespace Command

variable {m : Type → Type} [Monad m] {α : Type}

/-- A step that is an operation on files. -/
def onFiles (operation : m (Except FileFault α)) : Command m α :=
  ExceptT.mk (do return (← operation).mapError Failure.file)

/-- A step that is a part of a compile. -/
def onSource (result : Except Diagnostic α) : Command m α :=
  ExceptT.mk (pure (result.mapError Failure.compile))

/-- How a command on the files of a state ends, and the files after it. -/
def on (command : Command (StateM Files) α) (files : Files) : Except Failure α × Files :=
  command.run.run files

end Command

end Pagewright
