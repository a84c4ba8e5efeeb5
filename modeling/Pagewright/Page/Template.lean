import Pagewright.Page.Schema
import Pagewright.Text.Literal

set_option autoImplicit false

namespace Pagewright

open Text

/-- Which way a container lays out its children. -/
inductive Direction where
  | column | row
deriving DecidableEq, Repr, Inhabited

def Direction.className : Direction → String
  | .column => "col"
  | .row => "row"

/-- What a list shows for each row. Every template node takes one line of the script, which declares
the next of the names `n0`, `n1`, …; so numbers follow from sizes. -/
inductive Template where
  /-- Shows a column of the row. -/
  | field (name : String)
  /-- Calls the handler with the key of the row. -/
  | button (label handler : String)
  | container (direction : Direction) (children : List Template)
deriving Repr, Inhabited

/-- A call of a user's function. It goes through the global object, where no local name can hide
the function. -/
def globalCall (handler arguments : String) : String :=
  "window." ++ handler ++ "(" ++ arguments ++ ")"

/-- The local name of a number. -/
def localName (number : Nat) : String := "n" ++ toString number

namespace Template

mutual

/-- How many nodes a template has. -/
def size : Template → Nat
  | .field _ => 1
  | .button _ _ => 1
  | .container _ children => 1 + sizeAll children

def sizeAll : List Template → Nat
  | [] => 0
  | first :: rest => first.size + sizeAll rest

end

/-- A line that makes an element, sets it up and hangs it below its parent. -/
def elementLine (element tag setup parent : String) : String :=
  "const " ++ element ++ "=document.createElement(\"" ++ tag ++ "\");" ++ setup ++
    parent ++ ".appendChild(" ++ element ++ ");"

/-- The line of one node, without its children. -/
def line (parent : String) (number : Nat) : Template → String
  | .field name =>
    elementLine (localName number) "div"
      (localName number ++ ".textContent=row[" ++ Literal.script name ++ "];") parent
  | .button label handler =>
    elementLine (localName number) "button"
      (localName number ++ ".textContent=" ++ Literal.script label ++ ";" ++
        localName number ++ ".onclick=()=>" ++
        globalCall handler ("row[" ++ Literal.script Schema.keyColumn ++ "]") ++ ";") parent
  | .container direction _ =>
    elementLine (localName number) "div"
      (localName number ++ ".className=" ++ Literal.script direction.className ++ ";") parent

mutual

/-- The lines of a template, numbered in document order from the given number on. -/
def lines (parent : String) (number : Nat) : Template → List String
  | .field name => [line parent number (.field name)]
  | .button label handler => [line parent number (.button label handler)]
  | .container direction children =>
    line parent number (.container direction children) ::
      linesAll (localName number) (number + 1) children

def linesAll (parent : String) (number : Nat) : List Template → List String
  | [] => []
  | first :: rest => first.lines parent number ++ linesAll parent (number + first.size) rest

end

mutual

/-- Binds each field to a column: the one it names, otherwise the first. -/
def resolve (fields : List String) : Template → Template
  | .field name =>
    .field (if fields.contains name then name else fields.headD Schema.defaultField)
  | .button label handler => .button label handler
  | .container direction children => .container direction (resolveAll fields children)

def resolveAll (fields : List String) : List Template → List Template
  | [] => []
  | first :: rest => first.resolve fields :: resolveAll fields rest

end

end Template

/-- The place of a list in the document, by number, and the templates that fill it. -/
structure Slot where
  index : Nat
  items : List (List Template)
deriving Repr, Inhabited

namespace Slot

/-- How many names the lines of an item declare. -/
def itemSize (item : List Template) : Nat := 1 + Template.sizeAll item

def itemsSize : List (List Template) → Nat
  | [] => 0
  | item :: items => itemSize item + itemsSize items

/-- The lines that build one item, in an element of its own. -/
def itemLines (number : Nat) (item : List Template) : List String :=
  Template.elementLine (localName number) "div" (localName number ++ ".className=\"item\";") "el" ::
    Template.linesAll (localName number) (number + 1) item

def itemsLines (number : Nat) : List (List Template) → List String
  | [] => []
  | item :: items => itemLines number item ++ itemsLines (number + itemSize item) items

/-- How a script finds the place of a list. -/
def selector (table : String) (index : Nat) : String :=
  "[data-list=\"" ++ table ++ "\"][data-slot=\"" ++ toString index ++ "\"]"

/-- The block that fills the slot at a place of the `slots` array. -/
def lines (number place : Nat) (slot : Slot) : List String :=
  ("\x7bconst el=slots[" ++ toString place ++ "];if(el)\x7b") ::
    itemsLines number slot.items ++ ["\x7d\x7d"]

/-- How many names the lines of slots declare. -/
def sizeAll : List Slot → Nat
  | [] => 0
  | slot :: slots => itemsSize slot.items + sizeAll slots

def linesAll (number place : Nat) : List Slot → List String
  | [] => []
  | slot :: slots =>
    slot.lines number place ++ linesAll (number + itemsSize slot.items) (place + 1) slots

end Slot

end Pagewright
