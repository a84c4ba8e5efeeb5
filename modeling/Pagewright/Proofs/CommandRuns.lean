import Pagewright.CommandLine
import Pagewright.Proofs.ArgumentReading
import Pagewright.Proofs.Builds
import Pagewright.Proofs.Dumps
import Pagewright.Proofs.Pages

set_option autoImplicit false

namespace Pagewright

open Files

section Loading

variable (read : String → Except String Settings)

/-- The file at the path holds the settings. -/
def Files.Holds (files : Files) (path : String) (settings : Settings) : Prop :=
  ∃ text, files.readText path = .ok text ∧ read text = .ok settings

end Loading

namespace CommandLine

variable {readers : Readers} {home : Option String} {files : Files} {arguments : List String}
  {invocation : Invocation}

section Outcome

variable {ended : Run} {after : Files}

end Outcome

end CommandLine

end Pagewright
