import Pagewright.Build
import Pagewright.CommandLine.Arguments
import Pagewright.Json.Dump
import Pagewright.Settings.Load
import Pagewright.Settings.Read

set_option autoImplicit false

namespace Pagewright

/-- How the command reads its arguments, and the text of a settings file. A text that is no settings
file is refused with a reason. -/
structure Readers where
  arguments : List String → Request
  settings : String → Except String Settings

/-- Readers with texts to print for help and for arguments that are wrong. -/
def Readers.plain (help refusal : String) : Readers where
  arguments := Request.ofArguments "uix 0.3.0\n" help refusal
  settings text :=
    match Settings.read? text with
    | some settings => .ok settings
    | none => .error "not a settings document"

/-- The end of a run. -/
structure Run where
  status : Nat
  output : String
  /-- What is printed for the user beside the output. -/
  report : String
deriving DecidableEq, Repr, Inhabited

namespace CommandLine

variable {m : Type → Type} [Monad m] (host : Host m) (readers : Readers)

/-- The settings with what the arguments say otherwise. -/
def override (invocation : Invocation) (settings : Settings) : Settings :=
  { settings with
    strict := settings.strict || invocation.strict
    output := invocation.output.getD settings.output }

def settingsLine (settings : Settings) : String :=
  "config: strict=" ++ toString settings.strict ++
    " check_tables=" ++ toString settings.checkTables ++ " output=" ++ settings.output ++ "\n"

/-- What a source contained. The end of the input does not count as a token. -/
def summary (compilation : Compilation) : String :=
  "tokens: " ++ toString (compilation.tokens.length - 1) ++ "\n" ++
    "nodes: " ++ toString compilation.nodes.length ++ "\n" ++
    "tables: " ++ ", ".intercalate (compilation.page.bootstrap.tables.map Schema.name) ++ "\n"

/-- What the product of a run prints: its output, and what is reported if that is asked for. -/
def produce (invocation : Invocation) (settings : Settings) : Command m (String × String) :=
  match invocation.product with
  | .html => do
    let compilation ← build host invocation.source settings
    return ("✔ UIX build complete → " ++ settings.output ++ "\n", summary compilation)
  | .tokens => do
    let text ← .onFiles (host.readText invocation.source)
    let tokens ← .onSource (tokenize text)
    return (dumpTokens tokens ++ "\n", "")
  | .tree => do
    let text ← .onFiles (host.readText invocation.source)
    let nodes ← .onSource (parse settings.mode text)
    return (dumpNodes nodes ++ "\n", "")

def failed (before : String) (failure : Failure) : Run :=
  ⟨1, "", before ++ "error: " ++ failure.message ++ "\n"⟩

def invoke (invocation : Invocation) : m Run := do
  match ← (Settings.load host readers.settings invocation.settingsFile ".").run with
  | .error failure => return failed "" failure
  | .ok loaded =>
    let settings := override invocation loaded
    let before := if invocation.verbose then settingsLine settings else ""
    match ← (produce host invocation settings).run with
    | .error failure => return failed before failure
    | .ok (output, report) =>
      return ⟨0, output, before ++ if invocation.verbose then report else ""⟩

def run (arguments : List String) : m Run :=
  match readers.arguments arguments with
  | .refuse text => return ⟨2, "", text⟩
  | .print text => return ⟨0, text, ""⟩
  | .run invocation => invoke host readers invocation

/-- How a run on the files of a state ends, and the files after it. -/
def on (home : Option String) (arguments : List String) (files : Files) : Run × Files :=
  (run (Files.host home) readers arguments).run files

end CommandLine

end Pagewright
