import Pagewright.CommandLine

set_option autoImplicit false

namespace Pagewright

/-- The fault that an error of the system stands for. -/
def faultOfError : IO.Error → FileFault
  | .noFileOrDirectory _ _ _ => .missing
  | .alreadyExists _ _ _ => .alreadyThere
  | .inappropriateType _ code reason =>
    if code = 20 then .notDirectory
    else if code = 21 then .isDirectory
    else .other (reason ++ " (os error " ++ toString code ++ ")")
  | error => .other (toString error)

def attempt {α : Type} (action : IO α) : IO (Except FileFault α) := do
  try
    return .ok (← action)
  catch error =>
    return .error (faultOfError error)

def systemHost (home : Option String) : Host IO where
  readText path := do
    match ← attempt (IO.FS.readBinFile path) with
    | .error fault => return .error fault
    | .ok content =>
      match String.fromUTF8? content with
      | some text => return .ok text
      | none => return .error .notText
  isFile path := do
    match ← attempt (System.mkFilePath [path]).metadata with
    | .ok metadata => return metadata.type == .file
    | .error _ => return false
  createDirectories path := attempt (IO.FS.createDirAll path)
  writeText path text := attempt (IO.FS.writeFile path text)
  home := home

end Pagewright

open Pagewright in
def main (arguments : List String) : IO UInt32 := do
  let readers := Readers.plain "Compile a UIX source file into a self-contained web page\n" ""
  let run ← CommandLine.run (systemHost (← IO.getEnv "HOME")) readers arguments
  IO.print run.output
  IO.eprint run.report
  return UInt32.ofNat run.status
