import Mathlib.Data.List.Nodup
import Pagewright.CommandLine.Arguments

set_option autoImplicit false

namespace Pagewright

def Product.name : Product → String
  | .html => "html"
  | .tokens => "tokens"
  | .tree => "ast"

def ValueOption.name : ValueOption → String
  | .output => "out"
  | .settingsFile => "config"
  | .product => "emit"

def Flag.name : Flag → String
  | .strict => "strict"
  | .verbose => "verbose"
  | .version => "version"
  | .help => "help"

/-- Each kind stands at most once. -/
def Detail.Once (details : List Detail) : Prop :=
  (details.map Detail.kind).Nodup

namespace Invocation

variable {details : List Detail}

end Invocation

namespace ValueOption

end ValueOption

namespace Argument

/-- How an argument is written. -/
def text : Argument → String
  | .ended => "--"
  | .long name none => "--" ++ name
  | .long name (some value) => "--" ++ name ++ "=" ++ value
  | .letters flags => String.ofList ('-' :: flags)
  | .plain written => written

end Argument

namespace Flag

end Flag

namespace Arguments

open Detail

variable {before more all : List Detail} {detail : Detail} {arguments rest : List String}

end Arguments

end Pagewright
