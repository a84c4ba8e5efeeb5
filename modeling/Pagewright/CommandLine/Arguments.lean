set_option autoImplicit false

namespace Pagewright

/-- What a run produces. -/
inductive Product where
  | html | tokens | tree
deriving DecidableEq, Repr, Inhabited

def Product.ofName? : String → Option Product
  | "html" => some .html
  | "tokens" => some .tokens
  | "ast" => some .tree
  | _ => none

/-- What a run is asked to do. -/
structure Invocation where
  source : String
  output : Option String := none
  settingsFile : Option String := none
  product : Product := .html
  strict : Bool := false
  verbose : Bool := false
deriving DecidableEq, Repr, Inhabited

/-- What is made of the arguments of the command. -/
inductive Request where
  | run (invocation : Invocation)
  /-- A text to print: the version or the help. -/
  | print (text : String)
  /-- The arguments are wrong, for the reason in the text. -/
  | refuse (text : String)
deriving DecidableEq, Repr

/-- One thing that arguments say about a run. -/
inductive Detail where
  | source (path : String)
  | output (path : String)
  | settingsFile (path : String)
  | product (product : Product)
  | strict
  | verbose
deriving DecidableEq, Repr

namespace Detail

inductive Kind where
  | source | output | settingsFile | product | strict | verbose
deriving DecidableEq, Repr

def kind : Detail → Kind
  | .source _ => .source
  | .output _ => .output
  | .settingsFile _ => .settingsFile
  | .product _ => .product
  | .strict => .strict
  | .verbose => .verbose

def source? : Detail → Option String
  | .source path => some path
  | _ => none

def output? : Detail → Option String
  | .output path => some path
  | _ => none

def settingsFile? : Detail → Option String
  | .settingsFile path => some path
  | _ => none

def product? : Detail → Option Product
  | .product made => some made
  | _ => none

end Detail

/-- The run that the details ask for, none without a source. -/
def Invocation.ofDetails? (details : List Detail) : Option Invocation :=
  (details.findSome? Detail.source?).map fun source =>
    { source
      output := details.findSome? Detail.output?
      settingsFile := details.findSome? Detail.settingsFile?
      product := (details.findSome? Detail.product?).getD .html
      strict := details.contains .strict
      verbose := details.contains .verbose }

/-- Options that take a value. -/
inductive ValueOption where
  | output | settingsFile | product
deriving DecidableEq, Repr

namespace ValueOption

def ofName? : String → Option ValueOption
  | "out" => some .output
  | "config" => some .settingsFile
  | "emit" => some .product
  | _ => none

/-- What the option says with a value. A path is not empty. -/
def detail? : ValueOption → String → Option Detail
  | .output, path => if path.isEmpty then none else some (.output path)
  | .settingsFile, path => if path.isEmpty then none else some (.settingsFile path)
  | .product, name => (Product.ofName? name).map .product

end ValueOption

/-- Options that take none. -/
inductive Flag where
  | strict | verbose | version | help
deriving DecidableEq, Repr

def Flag.ofName? : String → Option Flag
  | "strict" => some .strict
  | "verbose" => some .verbose
  | "version" => some .version
  | "help" => some .help
  | _ => none

def Flag.ofLetter? : Char → Option Flag
  | 'v' => some .verbose
  | 'V' => some .version
  | 'h' => some .help
  | _ => none

/-- What one argument is as long as options may come. -/
inductive Argument where
  /-- Two dashes: what follows are sources. -/
  | ended
  | long (name : String) (value : Option String)
  | letters (letters : List Char)
  | plain (text : String)
deriving DecidableEq, Repr

namespace Argument

/-- A name and what follows its equals sign, if it has one. -/
def splitEquals : List Char → List Char × Option (List Char)
  | [] => ([], none)
  | c :: cs =>
    if c = '=' then ([], some cs)
    else
      let split := splitEquals cs
      (c :: split.1, split.2)

def ofText (text : String) : Argument :=
  match text.toList with
  | ['-', '-'] => .ended
  | '-' :: '-' :: name =>
    let split := splitEquals name
    .long (String.ofList split.1) (split.2.map String.ofList)
  | '-' :: c :: cs => .letters (c :: cs)
  | _ => .plain text

/-- Whether the argument can be the value of the option before it. -/
def isValue (text : String) : Bool :=
  text = "-" || text.toList.head? != some '-'

end Argument

/-- Why arguments are not read to their end. -/
inductive Break where
  | version | help | wrong
deriving DecidableEq, Repr

namespace Arguments

/-- Adds a detail. Each kind may stand once. -/
def add (details : List Detail) (detail : Detail) : Except Break (List Detail) :=
  if detail.kind ∈ details.map Detail.kind then .error .wrong else .ok (details ++ [detail])

def addSource (details : List Detail) (path : String) : Except Break (List Detail) :=
  if path.isEmpty then .error .wrong else add details (.source path)

def addValue (details : List Detail) (option : ValueOption) (value : String) :
    Except Break (List Detail) :=
  match option.detail? value with
  | some detail => add details detail
  | none => .error .wrong

def addFlag (details : List Detail) : Option Flag → Except Break (List Detail)
  | some .strict => add details .strict
  | some .verbose => add details .verbose
  | some .version => .error .version
  | some .help => .error .help
  | none => .error .wrong

def addLetter (details : List Detail) (letter : Char) : Except Break (List Detail) :=
  addFlag details (Flag.ofLetter? letter)

/-- The details of the arguments, behind those that were read before. They are read from left to
right, and the first that asks for the version or for help, or that is wrong, ends this. -/
def read (details : List Detail) : List String → Except Break (List Detail)
  | [] => .ok details
  | argument :: rest =>
    match Argument.ofText argument with
    | .ended => rest.foldlM addSource details
    | .plain text => do read (← addSource details text) rest
    | .letters letters => do
      read (← letters.foldlM addLetter details) rest
    | .long name value =>
      match ValueOption.ofName? name, value, rest with
      | some option, some value, rest => do read (← addValue details option value) rest
      | some option, none, value :: rest =>
        if Argument.isValue value then do read (← addValue details option value) rest
        else .error .wrong
      | some _, none, [] => .error .wrong
      | none, none, rest => do read (← addFlag details (Flag.ofName? name)) rest
      | none, some _, _ => .error .wrong

end Arguments

/-- What the arguments of the command ask for, with the texts to print for the version, for help and
for arguments that are wrong. -/
def Request.ofArguments (version help refusal : String) (arguments : List String) : Request :=
  match Arguments.read [] arguments with
  | .ok details =>
    match Invocation.ofDetails? details with
    | some invocation => .run invocation
    | none => .refuse refusal
  | .error .version => .print version
  | .error .help => .print help
  | .error .wrong => .refuse refusal

end Pagewright
