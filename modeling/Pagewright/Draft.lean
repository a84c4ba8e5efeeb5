import Pagewright.Diagnostic
import Pagewright.Node
import Pagewright.Page
import Pagewright.Text.Identifier

set_option autoImplicit false

namespace Pagewright

open Text

/-- A name where it is declared or used. -/
structure Site where
  name : String
  pos : Position
deriving DecidableEq, Repr, Inhabited

structure TableDeclaration where
  name : String
  fields : List Field
  pos : Position
deriving DecidableEq, Repr, Inhabited

/-- A list with templates. Their fields still carry the text of the program. -/
structure ListTemplate where
  table : String
  slot : Nat
  items : List (List Template)
deriving Repr, Inhabited

/-- What is collected from a program on one walk over its nodes. Names are checked on the way; that
they are declared is checked on the finished draft. -/
structure Draft where
  title : Option String := none
  tables : List TableDeclaration := []
  /-- The tables that lists and statements name. -/
  references : List Site := []
  functions : List Site := []
  lists : List ListTemplate := []
  slotCount : Nat := 0
  handlers : List Handler := []
deriving Repr, Inhabited

/-- A walk fails at the first node that is out of place or has a wrong name. -/
abbrev Walk (α : Type) : Type := Except Diagnostic α

/-- The prefix of the functions that show tables. -/
def renderPrefix : String := renderFunctionName ""

/-- Whether the scripts of a page take the name for themselves. -/
def isReservedFunction (name : String) : Bool :=
  Bootstrap.runtimeNames.contains name || renderPrefix.toList.isPrefixOf name.toList

def misplaced (node : Node) (place : Place) : Diagnostic :=
  .generation node.pos (.misplaced node.opening place)

/-- Table names become parts of identifiers. -/
def checkTableName (name : String) (pos : Position) : Walk Unit :=
  if isIdentifier name then .ok () else .error (.generation pos (.invalidName .table name))

/-- Names of functions and handlers are global functions themselves. -/
def checkCallable (role : Role) (name : String) (pos : Position) : Walk Unit :=
  if isCallable name then .ok () else .error (.generation pos (.invalidName role name))

def checkFunctionName (name : String) (pos : Position) : Walk Unit := do
  checkCallable .function name pos
  if isReservedFunction name then .error (.generation pos (.reservedFunction name)) else .ok ()

mutual

/-- What a node of an item shows for each row. -/
def templateOf (node : Node) : Walk (List Template) :=
  match node with
  | .text _ value => .ok [.field value]
  | .button pos label handler => do
    checkCallable .handler handler pos
    .ok [.button label handler]
  | .block _ .column body => do
    let children ← templatesOf body
    .ok [.container .column children]
  | .block _ .row body => do
    let children ← templatesOf body
    .ok [.container .row children]
  | .raw _ _ => .ok []
  | other => .error (.generation other.pos (.unsupportedInItem other.opening))

def templatesOf (nodes : List Node) : Walk (List Template) :=
  match nodes with
  | [] => .ok []
  | node :: rest => do
    let first ← templateOf node
    let others ← templatesOf rest
    .ok (first ++ others)

end

/-- The templates of the items of a list. Anything else in the list is ignored. -/
def itemsOf : List Node → Walk (List (List Template))
  | [] => .ok []
  | .block _ .item body :: rest => do
    let item ← templatesOf body
    let others ← itemsOf rest
    .ok (item :: others)
  | _ :: rest => itemsOf rest

/-- What a statement does. A condition does nothing. -/
def Statement.effect? (placeholder : String) : Statement → Option Effect
  | .insert table source => some (.insert table source)
  | .refresh table => some (.render table)
  | .delete table => some (.delete table)
  | .update table (some source) => some (.update table (.input source))
  | .update table none => some (.update table (.literal placeholder))
  | .condition _ => none

/-- The effects of the statements of a function, each with the place of its statement. -/
def effectsOf (placeholder : String) : List Node → Walk (List (Position × Effect))
  | [] => .ok []
  | .statement pos step :: rest =>
    match step.effect? placeholder with
    | none => effectsOf placeholder rest
    | some effect => do
      checkTableName effect.table pos
      let others ← effectsOf placeholder rest
      .ok ((pos, effect) :: others)
  | .raw _ _ :: rest => effectsOf placeholder rest
  | node :: _ => .error (misplaced node .outsideFunction)

namespace Draft

/-- A list takes the next slot, whether it has items or not. -/
def addList (draft : Draft) (pos : Position) (table : String) (items : List (List Template)) :
    Draft :=
  { draft with
    references := draft.references ++ [⟨table, pos⟩]
    lists := if items.isEmpty then draft.lists
      else draft.lists ++ [⟨table, draft.slotCount, items⟩]
    slotCount := draft.slotCount + 1 }

def addFunction (draft : Draft) (pos : Position) (name : String)
    (effects : List (Position × Effect)) : Draft :=
  { draft with
    references := draft.references ++ effects.map fun (pos, effect) => ⟨effect.table, pos⟩
    functions := draft.functions ++ [⟨name, pos⟩]
    handlers := draft.handlers ++ [⟨name, effects.map Prod.snd⟩] }

def addTable (draft : Draft) (pos : Position) (name : String) (fields : List Field) : Draft :=
  { draft with tables := draft.tables ++ [⟨name, fields, pos⟩] }

end Draft

/-- The element of a control. -/
def inputMarkup (kind id : String) : Markup :=
  .element "input" [("id", id), ("type", kind), ("placeholder", id), ("aria-label", id)] []

def buttonMarkup (label handler : String) : Markup :=
  .element "button" [("onclick", globalCall handler "")] [.text label]

def containerMarkup (direction : Direction) (children : List Markup) : Markup :=
  .element "div" [("class", direction.className)] children

/-- The element that a render function fills. -/
def listMarkup (table : String) (slot : Nat) : Markup :=
  .element "div" [("data-list", table), ("data-slot", toString slot)] []

mutual

/-- The markup of a node, and the draft with what the node declares and uses. -/
def walk (placeholder : String) (node : Node) (draft : Draft) : Walk (List Markup × Draft) :=
  match node with
  | .app _ name => .ok ([], { draft with title := some name })
  | .block _ .ui body => walkAll placeholder body draft
  | .block _ .column body => do
    let (children, draft) ← walkAll placeholder body draft
    .ok ([containerMarkup .column children], draft)
  | .block _ .row body => do
    let (children, draft) ← walkAll placeholder body draft
    .ok ([containerMarkup .row children], draft)
  | .block _ .db body => do
    let (_, draft) ← walkAll placeholder body draft
    .ok ([], draft)
  | .block pos .item body => .error (misplaced (.block pos .item body) .insideList)
  | .text _ value => .ok ([.element "p" [] [.text value]], draft)
  | .input _ kind id => .ok ([inputMarkup kind id], draft)
  | .button pos label handler => do
    checkCallable .handler handler pos
    .ok ([buttonMarkup label handler], draft)
  | .list pos table body => do
    checkTableName table pos
    let items ← itemsOf body
    .ok ([listMarkup table draft.slotCount], draft.addList pos table items)
  | .table pos name fields => do
    checkTableName name pos
    .ok ([], draft.addTable pos name fields)
  | .function pos name body => do
    checkFunctionName name pos
    let effects ← effectsOf placeholder body
    .ok ([], draft.addFunction pos name effects)
  | .statement pos step => .error (misplaced (.statement pos step) .insideFunction)
  | .raw _ _ => .ok ([], draft)

def walkAll (placeholder : String) (nodes : List Node) (draft : Draft) :
    Walk (List Markup × Draft) :=
  match nodes with
  | [] => .ok ([], draft)
  | node :: rest => do
    let (first, draft) ← walk placeholder node draft
    let (others, draft) ← walkAll placeholder rest draft
    .ok (first ++ others, draft)

end

end Pagewright
