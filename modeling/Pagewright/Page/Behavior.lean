import Pagewright.Page.Template

set_option autoImplicit false

namespace Pagewright

open Text

/-- The text of a script. -/
def scriptText (lines : List String) : String :=
  String.join (lines.map fun line => line ++ "\n")

/-- Fills every list of one table. -/
structure RenderFunction where
  table : Schema
  slots : List Slot
deriving Repr, Inhabited

namespace RenderFunction

/-- How many names the lines declare. -/
def size (function : RenderFunction) : Nat := Slot.sizeAll function.slots

def lookup (table : String) (slot : Slot) : String :=
  "document.querySelector(" ++ Literal.script (Slot.selector table slot.index) ++ ")"

/-- The lines that query the rows and build the items of each. -/
def body (number : Nat) (function : RenderFunction) : List String :=
  ["const slots=[" ++
      ",".intercalate (function.slots.map (lookup function.table.name)) ++ "];",
    "slots.forEach(el=>\x7bif(el)el.innerHTML=\"\";\x7d);",
    "const rows=queryRows(" ++ Literal.script function.table.select ++ ");",
    "if(!rows.length)return;",
    "rows.forEach(row=>\x7b"] ++
    Slot.linesAll number 0 function.slots ++ ["\x7d);"]

def lines (number : Nat) (function : RenderFunction) : List String :=
  ("function " ++ renderFunctionName function.table.name ++ "()\x7b") ::
    (if function.slots.isEmpty then [] else function.body number) ++ ["\x7d"]

def linesAll (number : Nat) : List RenderFunction → List String
  | [] => []
  | first :: rest => first.lines number ++ linesAll (number + first.size) rest

end RenderFunction

/-- Where an update takes its value from. -/
inductive UpdateValue where
  | literal (text : String)
  | input (id : String)
deriving DecidableEq, Repr, Inhabited

/-- What one statement of a handler does. -/
inductive Effect where
  | insert (table input : String)
  | render (table : String)
  | delete (table : String)
  | update (table : String) (value : UpdateValue)
deriving DecidableEq, Repr, Inhabited

def inputValue (id : String) : String :=
  "document.getElementById(" ++ Literal.script id ++ ").value"

def UpdateValue.expression : UpdateValue → String
  | .literal text => Literal.script text
  | .input id => inputValue id

/-- The line that shows a table again. -/
def renderLine (table : String) : String := renderFunctionName table ++ "();"

namespace Effect

def table : Effect → String
  | .insert table _ | .render table | .delete table | .update table _ => table

/-- A change of a row by its key shows the table again; an insertion does not. -/
def lines : Effect → List String
  | .insert table input => ["insert(" ++ Literal.script table ++ "," ++ inputValue input ++ ");"]
  | .render table => [renderLine table]
  | .delete table => ["deleteById(" ++ Literal.script table ++ ",arg);", renderLine table]
  | .update table value =>
    ["updateById(" ++ Literal.script table ++ ",arg," ++ value.expression ++ ");",
      renderLine table]

end Effect

/-- A function of the program. -/
structure Handler where
  name : String
  effects : List Effect
deriving DecidableEq, Repr, Inhabited

def Handler.lines (handler : Handler) : List String :=
  ("function " ++ handler.name ++ "(arg)\x7b") :: handler.effects.flatMap Effect.lines ++ ["\x7d"]

/-- The functions of a page: one per table that shows its rows, and those the program defines. -/
structure Behavior where
  renderFunctions : List RenderFunction
  handlers : List Handler
deriving Repr, Inhabited

namespace Behavior

/-- Local names are numbered through all functions of the script. -/
def lines (behavior : Behavior) : List String :=
  RenderFunction.linesAll 0 behavior.renderFunctions ++ behavior.handlers.flatMap Handler.lines

def render (behavior : Behavior) : String := scriptText behavior.lines

end Behavior

end Pagewright
