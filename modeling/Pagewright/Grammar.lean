set_option autoImplicit false

namespace Pagewright

/-- Blocks that hold nothing but their body. -/
inductive BlockKind where
  | ui | column | row | item | db
deriving DecidableEq, Repr, Inhabited

def BlockKind.keyword : BlockKind → String
  | .ui => "ui"
  | .column => "column"
  | .row => "row"
  | .item => "item"
  | .db => "db"

inductive Keyword where
  | app
  | block (kind : BlockKind)
  | text | input | button | list | table | function
  | insert | refresh | delete | update | condition
deriving DecidableEq, Repr, Inhabited

namespace Keyword

def spelling : Keyword → String
  | .app => "app"
  | .block kind => kind.keyword
  | .text => "text"
  | .input => "input"
  | .button => "button"
  | .list => "list"
  | .table => "table"
  | .function => "fn"
  | .insert => "insert"
  | .refresh => "refresh"
  | .delete => "delete"
  | .update => "update"
  | .condition => "where"

def all : List Keyword :=
  [.app, .block .ui, .block .column, .block .row, .text, .input, .button, .list, .block .item,
    .block .db, .table, .function, .insert, .refresh, .delete, .update, .condition]

theorem mem_all (keyword : Keyword) : keyword ∈ all := by
  rcases keyword with _ | ⟨_ | _⟩ <;> decide

/-- The keyword a word spells, if it spells one. -/
def ofWord? (word : String) : Option Keyword :=
  all.find? fun keyword => keyword.spelling == word

theorem spelling_of_ofWord? {word : String} {keyword : Keyword}
    (found : ofWord? word = some keyword) : keyword.spelling = word := by
  simpa using List.find?_some found

end Keyword

/-- What a place in a sentence asks for. -/
inductive Construct where
  | applicationName | textValue | inputKind | inputId | buttonLabel | handlerName | tableName
  | fieldName | functionName | valueSource | condition
deriving DecidableEq, Repr, Inhabited

def Construct.label : Construct → String
  | .applicationName => "application name"
  | .textValue => "text value"
  | .inputKind => "input kind"
  | .inputId => "input id"
  | .buttonLabel => "button label"
  | .handlerName => "handler name"
  | .tableName => "table name"
  | .fieldName => "field name"
  | .functionName => "function name"
  | .valueSource => "value source id"
  | .condition => "condition"

/-- What a block may hold. -/
inductive Context where
  /-- The program itself and the bodies of `ui`, `column`, `row` and `item`. -/
  | general
  | list
  | db
  | function
deriving DecidableEq, Repr, Inhabited

def Context.label : Context → String
  | .general => "a renderable or declaration"
  | .list => "'item'"
  | .db => "'table'"
  | .function => "a statement (insert, refresh, delete, update, where)"

/-- What the body of a block may hold. -/
def BlockKind.context : BlockKind → Context
  | .db => .db
  | _ => .general

end Pagewright
