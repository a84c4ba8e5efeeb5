set_option autoImplicit false

namespace Pagewright

/-- The texts between slashes, with the empty ones. -/
def splitSlashes : List Char → List (List Char)
  | [] => [[]]
  | c :: cs =>
    match splitSlashes cs with
    | [] => [[c]]
    | first :: rest => if c = '/' then [] :: first :: rest else (c :: first) :: rest

structure Path where
  absolute : Bool
  segments : List String
  /-- Whether the text ends with a slash. -/
  slash : Bool
deriving DecidableEq, Repr

namespace Path

def ofText (text : String) : Path where
  absolute := text.toList.head? == some '/'
  segments := ((splitSlashes text.toList).filter fun segment => !segment.isEmpty).map String.ofList
  slash := text.toList.getLast? == some '/'

/-- The segments that matter for the parent: a dot counts only at the beginning of a relative
path. -/
def components (path : Path) : List String :=
  match path.segments with
  | [] => []
  | first :: rest =>
    (if first = "." && path.absolute then [] else [first]) ++ rest.filter fun segment =>
      segment != "."

/-- The text of a path of the given components. -/
def textOf (absolute : Bool) (components : List String) : String :=
  (if absolute then "/" else "") ++ "/".intercalate components

/-- The path without its last component, if it has one. It is empty for a single name. -/
def parent? (path : Path) : Option String :=
  if path.components.isEmpty then none
  else some (textOf path.absolute path.components.dropLast)

end Path

/-- The path of a name in a directory. -/
def joinPath (directory name : String) : String :=
  if directory.isEmpty || (Path.ofText directory).slash then directory ++ name
  else directory ++ "/" ++ name

end Pagewright
