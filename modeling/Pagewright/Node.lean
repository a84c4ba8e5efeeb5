import Pagewright.Position
import Pagewright.Grammar

set_option autoImplicit false

namespace Pagewright

/-- A column that a table declares. -/
structure Field where
  name : String
  pos : Position
deriving DecidableEq, Repr, Inhabited

/-- One step of a function. -/
inductive Statement where
  | insert (table source : String)
  | refresh (table : String)
  | delete (table : String)
  /-- Without a source the value is the one the settings give. -/
  | update (table : String) (source : Option String)
  | condition (text : String)
deriving DecidableEq, Repr, Inhabited

def Statement.keyword : Statement → Keyword
  | .insert _ _ => .insert
  | .refresh _ => .refresh
  | .delete _ => .delete
  | .update _ _ => .update
  | .condition _ => .condition

/-- Programs as trees. Every node carries the position of the token that begins it. -/
inductive Node where
  | app (pos : Position) (name : String)
  | block (pos : Position) (kind : BlockKind) (body : List Node)
  | text (pos : Position) (value : String)
  | input (pos : Position) (kind id : String)
  | button (pos : Position) (label handler : String)
  | list (pos : Position) (table : String) (body : List Node)
  | table (pos : Position) (name : String) (fields : List Field)
  | function (pos : Position) (name : String) (body : List Node)
  | statement (pos : Position) (step : Statement)
  /-- A word or literal that begins no sentence of the language. -/
  | raw (pos : Position) (token : String)
deriving Repr, Inhabited

namespace Node

def pos : Node → Position
  | .app pos _ | .block pos _ _ | .text pos _ | .input pos _ _ | .button pos _ _
  | .list pos _ _ | .table pos _ _ | .function pos _ _ | .statement pos _ | .raw pos _ => pos

/-- The keyword of the sentence, none for a raw node. -/
def keyword? : Node → Option Keyword
  | .app _ _ => some .app
  | .block _ kind _ => some (.block kind)
  | .text _ _ => some .text
  | .input _ _ _ => some .input
  | .button _ _ _ => some .button
  | .list _ _ _ => some .list
  | .table _ _ _ => some .table
  | .function _ _ _ => some .function
  | .statement _ step => some step.keyword
  | .raw _ _ => none

/-- The word that begins the node, as a diagnostic shows it. -/
def opening : Node → String
  | .raw _ token => token
  | node => (node.keyword?.map Keyword.spelling).getD ""

def isStatement : Node → Bool
  | .statement _ _ => true
  | _ => false

def isItem : Node → Bool
  | .block _ .item _ => true
  | _ => false

def isTable : Node → Bool
  | .table _ _ _ => true
  | _ => false

def isRaw : Node → Bool
  | .raw _ _ => true
  | _ => false

end Node

/-- Which nodes a block takes. A raw node may stand anywhere. -/
def Context.accepts (context : Context) (node : Node) : Bool :=
  node.isRaw || match context with
    | .general => !node.isStatement && !node.isItem
    | .list => node.isItem
    | .db => node.isTable
    | .function => node.isStatement

end Pagewright
