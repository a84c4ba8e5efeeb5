import Pagewright.Files.Path

set_option autoImplicit false

namespace Pagewright

/-- Why an operation on files fails. -/
inductive FileFault where
  | missing
  | alreadyThere
  | notDirectory
  | isDirectory
  /-- The content is not UTF-8. -/
  | notText
  /-- The path has a character that ends a name for the system. -/
  | nulInPath
  /-- Another reason of the system, in its words. -/
  | other (reason : String)
deriving DecidableEq, Repr

def FileFault.message : FileFault → String
  | .missing => "No such file or directory (os error 2)"
  | .alreadyThere => "File exists (os error 17)"
  | .notDirectory => "Not a directory (os error 20)"
  | .isDirectory => "Is a directory (os error 21)"
  | .notText => "stream did not contain valid UTF-8"
  | .nulInPath => "file name contained an unexpected NUL byte"
  | .other reason => reason

inductive Entry where
  | directory
  | file (content : ByteArray)

/-- What is found under each list of names. The root of the tree has the empty list and is always
there. -/
structure Files where
  entry : List String → Option Entry
  /-- The names of the working directory. -/
  here : List String

namespace Files

def get (files : Files) (names : List String) : Option Entry :=
  if names.isEmpty then some .directory else files.entry names

def set (files : Files) (names : List String) (entry : Option Entry) : Files :=
  { files with entry := fun other => if other = names then entry else files.entry other }

/-- The names that one more segment leads to. Nothing is above the root. -/
def step (names : List String) (segment : String) : List String :=
  if segment = "." then names else if segment = ".." then names.dropLast else names ++ [segment]

/-- The names that segments lead to from a directory, and what is found there. All but the last
must lead to directories. -/
def findFrom (files : Files) (names : List String) :
    List String → Except FileFault (List String × Option Entry)
  | [] => .ok (names, some .directory)
  | [last] => .ok (step names last, files.get (step names last))
  | segment :: rest =>
    match files.get (step names segment) with
    | none => .error .missing
    | some (.file _) => .error .notDirectory
    | some .directory => findFrom files (step names segment) rest

/-- The names that a path starts from. -/
def base (files : Files) (absolute : Bool) : List String :=
  if absolute then [] else files.here

/-- What is found under a path. The empty path leads nowhere. -/
def find (files : Files) (path : Path) : Except FileFault (List String × Option Entry) :=
  if path.segments.any fun segment => segment.toList.contains '\x00' then .error .nulInPath
  else if path.segments.isEmpty && !path.absolute then .error .missing
  else files.findFrom (files.base path.absolute) path.segments

def read (files : Files) (text : String) : Except FileFault ByteArray := do
  let path := Path.ofText text
  match ← files.find path with
  | (_, none) => .error .missing
  | (_, some .directory) => .error .isDirectory
  | (_, some (.file content)) => if path.slash then .error .notDirectory else .ok content

def readText (files : Files) (text : String) : Except FileFault String := do
  match String.fromUTF8? (← files.read text) with
  | some content => .ok content
  | none => .error .notText

def isFile (files : Files) (text : String) : Bool :=
  (files.read text).isOk

def isDirectory (files : Files) (path : Path) : Bool :=
  match files.find path with
  | .ok (_, some .directory) => true
  | _ => false

/-- A new file or a new content. A path with a slash at its end cannot name a file. -/
def write (files : Files) (text : String) (content : ByteArray) : Except FileFault Files := do
  let path := Path.ofText text
  match ← files.find path with
  | (_, some .directory) => .error .isDirectory
  | (names, _) =>
    if path.slash then .error .isDirectory else .ok (files.set names (some (.file content)))

def makeDirectory (files : Files) (path : Path) : Except FileFault Files := do
  match ← files.find path with
  | (_, some _) => .error .alreadyThere
  | (names, none) => .ok (files.set names (some .directory))

/-- Makes the directory of the components, which are given from the last to the first, and the ones
it stands in. Directories that are made before a failure stay. -/
def makeDirectories (files : Files) (absolute : Bool) :
    List String → Except FileFault Unit × Files
  | [] => (.ok (), files)
  | last :: before =>
    let path : Path := ⟨absolute, (last :: before).reverse, false⟩
    match files.makeDirectory path with
    | .ok made => (.ok (), made)
    | .error .missing =>
      match files.makeDirectories absolute before with
      | (.error fault, files) => (.error fault, files)
      | (.ok (), files) =>
        match files.makeDirectory path with
        | .ok made => (.ok (), made)
        | .error fault => if files.isDirectory path then (.ok (), files) else (.error fault, files)
    | .error fault => if files.isDirectory path then (.ok (), files) else (.error fault, files)

def createDirectories (files : Files) (text : String) : Except FileFault Unit × Files :=
  let path := Path.ofText text
  files.makeDirectories path.absolute path.components.reverse

end Files

/-- The operations on files that a command needs, wherever the files are. -/
structure Host (m : Type → Type) where
  readText : String → m (Except FileFault String)
  isFile : String → m Bool
  createDirectories : String → m (Except FileFault Unit)
  writeText : String → String → m (Except FileFault Unit)
  /-- The home directory of the user. -/
  home : Option String

/-- The operations on the files of a state. -/
def Files.host (home : Option String) : Host (StateM Files) where
  readText path := fun files => (files.readText path, files)
  isFile path := fun files => (files.isFile path, files)
  createDirectories path := fun files => files.createDirectories path
  writeText path text := fun files =>
    match files.write path text.toUTF8 with
    | .ok written => (.ok (), written)
    | .error fault => (.error fault, files)
  home := home

end Pagewright
