import Pagewright.Failure
import Pagewright.Settings

set_option autoImplicit false

namespace Pagewright.Settings

variable {m : Type → Type} [Monad m] (host : Host m) (read : String → Except String Settings)

def localFile : String := "uix.yaml"

/-- The settings file of the user, in the home directory. -/
def userFile (home : String) : String :=
  joinPath (joinPath home ".uix") "config.yaml"

def loadFile (path : String) : Command m Settings := do
  match read (← .onFiles (host.readText path)) with
  | .ok settings => return settings
  | .error reason => throw (.settings reason)

/-- The settings of the first of the files that is there. One that is there must be readable. -/
def loadFirst : List String → Command m Settings
  | [] => return {}
  | path :: rest => do
    if ← ExceptT.lift (host.isFile path) then loadFile host read path else loadFirst rest

def candidates (directory : String) : List String :=
  joinPath directory localFile :: (host.home.map userFile).toList

/-- The settings of the file that is named. Where none is named, those of the directory, else those
of the user, else the defaults. -/
def load (explicit : Option String) (directory : String) : Command m Settings :=
  match explicit with
  | some path => loadFile host read path
  | none => loadFirst host read (candidates host directory)

end Pagewright.Settings
