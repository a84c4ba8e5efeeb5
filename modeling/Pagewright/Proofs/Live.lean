import Pagewright.Draft.Finish
import Pagewright.Proofs.Checks

set_option autoImplicit false

namespace Pagewright

mutual

/-- The node and, below blocks of the kinds to enter, its descendants in preorder. -/
def Node.reach (enter : BlockKind → Bool) : Node → List Node
  | .block pos kind body =>
    .block pos kind body :: if enter kind then Node.reachAll enter body else []
  | node => [node]

def Node.reachAll (enter : BlockKind → Bool) : List Node → List Node
  | [] => []
  | node :: rest => node.reach enter ++ Node.reachAll enter rest

end

/-- Whether the walk goes on with the body of a block. -/
def BlockKind.isWalked : BlockKind → Bool
  | .ui | .column | .row | .db => true
  | .item => false

/-- Whether a block may stand inside an item. -/
def BlockKind.isContainer : BlockKind → Bool
  | .column | .row => true
  | .ui | .item | .db => false

/-- The nodes of a program that are walked. -/
def liveNodes (nodes : List Node) : List Node := Node.reachAll BlockKind.isWalked nodes

theorem liveNodes_cons (node : Node) (rest : List Node) :
    liveNodes (node :: rest) = node.reach BlockKind.isWalked ++ liveNodes rest := by
  simp only [liveNodes, Node.reachAll]

/-- The nodes of an item that are shown for each row. -/
def shownNodes (body : List Node) : List Node := Node.reachAll BlockKind.isContainer body

theorem shownNodes_cons (node : Node) (rest : List Node) :
    shownNodes (node :: rest) = node.reach BlockKind.isContainer ++ shownNodes rest := by
  simp only [shownNodes, Node.reachAll]

def Node.itemBody? : Node → Option (List Node)
  | .block _ .item body => some body
  | _ => none

/-- The bodies of the items of a list. -/
def itemBodies (body : List Node) : List (List Node) := body.filterMap Node.itemBody?

mutual

/-- What a node of an item shows for each row, with its texts bound to columns. -/
def Node.shows (column : String → String) : Node → List Template
  | .text _ value => [.field (column value)]
  | .button _ label handler => [.button label handler]
  | .block _ .column body => [.container .column (Node.showsAll column body)]
  | .block _ .row body => [.container .row (Node.showsAll column body)]
  | _ => []

def Node.showsAll (column : String → String) : List Node → List Template
  | [] => []
  | node :: rest => node.shows column ++ Node.showsAll column rest

end

/-- The table that a statement names. -/
def Statement.table? : Statement → Option String
  | .insert table _ | .refresh table | .delete table | .update table _ => some table
  | .condition _ => none

/-- What a child of a function does, and where it stands. -/
def Node.effect? (placeholder : String) : Node → Option (Position × Effect)
  | .statement pos (.insert into source) => some (pos, .insert into source)
  | .statement pos (.refresh shown) => some (pos, .render shown)
  | .statement pos (.delete source) => some (pos, .delete source)
  | .statement pos (.update changed (some source)) => some (pos, .update changed (.input source))
  | .statement pos (.update changed none) => some (pos, .update changed (.literal placeholder))
  | _ => none

theorem Node.effect?_statement (placeholder : String) (pos : Position) (step : Statement) :
    (Node.statement pos step).effect? placeholder =
      (step.effect? placeholder).map fun effect => (pos, effect) := by
  rcases step with _ | _ | _ | ⟨_, _ | _⟩ | _ <;> rfl

theorem Statement.effect?_table (placeholder : String) (step : Statement) :
    (step.effect? placeholder).map Effect.table = step.table? := by
  rcases step with _ | _ | _ | ⟨_, _ | _⟩ | _ <;> rfl

def Node.isList : Node → Bool
  | .list _ _ _ => true
  | _ => false

/-- How many lists the walk numbers. -/
def listCount (nodes : List Node) : Nat := nodes.countP Node.isList

mutual

/-- The markup of a node, whose lists are numbered from the given slot on. -/
def Node.markup (slot : Nat) : Node → List Markup
  | .block _ .ui body => Node.markupAll slot body
  | .block _ .column body => [containerMarkup .column (Node.markupAll slot body)]
  | .block _ .row body => [containerMarkup .row (Node.markupAll slot body)]
  | .text _ value => [.element "p" [] [.text value]]
  | .input _ kind id => [inputMarkup kind id]
  | .button _ label handler => [buttonMarkup label handler]
  | .list _ source _ => [listMarkup source slot]
  | _ => []

def Node.markupAll (slot : Nat) : List Node → List Markup
  | [] => []
  | node :: rest =>
    node.markup slot ++ Node.markupAll (slot + listCount (node.reach BlockKind.isWalked)) rest

end

/-- What one walked node adds to the draft. -/
def Draft.note (placeholder : String) (draft : Draft) : Node → Draft
  | .app _ name => { draft with title := some name }
  | .list pos table body => draft.addList pos table ((itemBodies body).map (Node.showsAll id))
  | .table pos name fields => draft.addTable pos name fields
  | .function pos name body =>
    draft.addFunction pos name (body.filterMap (Node.effect? placeholder))
  | _ => draft

/-- What one node of an item has to satisfy by itself. -/
def checkShown : Node → Walk Unit
  | .text _ _ | .raw _ _ => .ok ()
  | .button pos _ handler => checkCallable .handler handler pos
  | .block pos kind body =>
    if kind.isContainer then .ok ()
    else .error (.generation pos (.unsupportedInItem (Node.block pos kind body).opening))
  | other => .error (.generation other.pos (.unsupportedInItem other.opening))

/-- What one child of a function has to satisfy. -/
def checkStep : Node → Walk Unit
  | .statement pos step =>
    match step.table? with
    | some table => checkTableName table pos
    | none => .ok ()
  | .raw _ _ => .ok ()
  | other => .error (misplaced other .outsideFunction)

/-- What one walked node has to satisfy by itself. -/
def checkLive : Node → Walk Unit
  | .block pos kind body =>
    if kind.isWalked then .ok () else .error (misplaced (.block pos kind body) .insideList)
  | .button pos _ handler => checkCallable .handler handler pos
  | .list pos table body => do
    checkTableName table pos
    forM (itemBodies body) fun item => forM (shownNodes item) checkShown
  | .table pos name _ => checkTableName name pos
  | .function pos name body => do
    checkFunctionName name pos
    forM body checkStep
  | .statement pos step => .error (misplaced (.statement pos step) .insideFunction)
  | .app _ _ | .text _ _ | .input _ _ _ | .raw _ _ => .ok ()

mutual

theorem templateOf_eq : (node : Node) →
    templateOf node = passing checkShown (node.reach BlockKind.isContainer) (node.shows id)
  | .text _ _ => rfl
  | .raw _ _ => rfl
  | .button pos label handler => by
    change _ = passing checkShown [.button pos label handler] _
    rw [passing_cons]
    rfl
  | .block pos .column body => by
    rw [templateOf, templatesOf_eq body, passing_bind]
    rfl
  | .block pos .row body => by
    rw [templateOf, templatesOf_eq body, passing_bind]
    rfl
  | .block _ .ui _ | .block _ .item _ | .block _ .db _ => rfl
  | .app _ _ | .input _ _ _ | .list _ _ _ | .table _ _ _ | .function _ _ _ | .statement _ _ => rfl

theorem templatesOf_eq : (nodes : List Node) →
    templatesOf nodes = passing checkShown (shownNodes nodes) (Node.showsAll id nodes)
  | [] => rfl
  | node :: rest => by
    rw [templatesOf, templateOf_eq node, templatesOf_eq rest, passing_bind]
    simp only [passing_bind]
    rw [shownNodes_cons, passing_append]
    rfl

end

theorem itemsOf_eq (body : List Node) :
    itemsOf body = passing (fun item => forM (shownNodes item) checkShown) (itemBodies body)
      ((itemBodies body).map (Node.showsAll id)) := by
  fun_induction itemsOf body with
  | case1 => rfl
  | case2 pos body rest ih =>
    have first : itemBodies (.block pos .item body :: rest) = body :: itemBodies rest := rfl
    rw [first, List.map_cons, passing_cons, templatesOf_eq, passing_bind, ih]
    simp only [passing_bind]
    rfl
  | case3 node rest other ih =>
    have skipped : itemBodies (node :: rest) = itemBodies rest := by
      have none : node.itemBody? = none := by
        unfold Node.itemBody?
        split
        · exact absurd rfl (other _ _)
        · rfl
      simp only [itemBodies, List.filterMap_cons, none]
    rw [skipped, ih]

theorem effectsOf_eq (placeholder : String) (body : List Node) :
    effectsOf placeholder body =
      passing checkStep body (body.filterMap (Node.effect? placeholder)) := by
  fun_induction effectsOf placeholder body with
  | case1 => rfl
  | case2 pos step rest idle ih =>
    have none : step.table? = none := by
      rw [← Statement.effect?_table placeholder, idle]
      rfl
    rw [passing_cons, ih]
    simp only [List.filterMap_cons, Node.effect?_statement, checkStep, idle, none]
    rfl
  | case3 pos step rest effect active ih =>
    have table : step.table? = some effect.table := by
      rw [← Statement.effect?_table placeholder, active]
      rfl
    rw [passing_cons, ih]
    simp only [List.filterMap_cons, Node.effect?_statement, checkStep, active, table,
      passing_bind]
    rfl
  | case4 pos token rest ih =>
    rw [passing_cons, ih]
    rfl
  | case5 node rest notStatement notRaw =>
    rw [passing_cons]
    cases node with
    | statement pos step => exact absurd rfl (notStatement pos step)
    | raw pos token => exact absurd rfl (notRaw pos token)
    | _ => rfl

theorem Draft.note_slotCount (placeholder : String) (draft : Draft) (node : Node) :
    (draft.note placeholder node).slotCount = draft.slotCount + if node.isList then 1 else 0 := by
  cases node <;> rfl

theorem Draft.notes_slotCount (placeholder : String) (draft : Draft) (nodes : List Node) :
    (nodes.foldl (Draft.note placeholder) draft).slotCount = draft.slotCount + listCount nodes := by
  induction nodes generalizing draft with
  | nil => rfl
  | cons node rest ih =>
    rw [List.foldl_cons, ih, Draft.note_slotCount, listCount, listCount, List.countP_cons]
    omega

mutual

theorem walk_eq (placeholder : String) : (node : Node) → (draft : Draft) →
    walk placeholder node draft = passing checkLive (node.reach BlockKind.isWalked)
      (node.markup draft.slotCount,
        (node.reach BlockKind.isWalked).foldl (Draft.note placeholder) draft)
  | .app _ _, _ | .text _ _, _ | .input _ _ _, _ | .raw _ _, _ | .statement _ _, _ => rfl
  | .block _ .item _, _ => rfl
  | .block pos .ui body, draft => by
    rw [walk, walkAll_eq placeholder body draft]
    rfl
  | .block pos .column body, draft => by
    rw [walk, walkAll_eq placeholder body draft, passing_bind]
    rfl
  | .block pos .row body, draft => by
    rw [walk, walkAll_eq placeholder body draft, passing_bind]
    rfl
  | .block pos .db body, draft => by
    rw [walk, walkAll_eq placeholder body draft, passing_bind]
    rfl
  | .button pos label handler, draft => by
    change _ = passing checkLive [.button pos label handler] _
    rw [passing_cons]
    rfl
  | .list pos table body, draft => by
    change _ = passing checkLive [.list pos table body] _
    rw [passing_cons, walk, itemsOf_eq]
    simp only [passing_bind, checkLive, bind_assoc]
    rfl
  | .table pos name fields, draft => by
    change _ = passing checkLive [.table pos name fields] _
    rw [passing_cons]
    rfl
  | .function pos name body, draft => by
    change _ = passing checkLive [.function pos name body] _
    rw [passing_cons, walk, effectsOf_eq]
    simp only [passing_bind, checkLive, bind_assoc]
    rfl

/-- The walk checks the live nodes in preorder; its markup and its draft are folds over them. -/
theorem walkAll_eq (placeholder : String) : (nodes : List Node) → (draft : Draft) →
    walkAll placeholder nodes draft = passing checkLive (liveNodes nodes)
      (Node.markupAll draft.slotCount nodes,
        (liveNodes nodes).foldl (Draft.note placeholder) draft)
  | [], _ => rfl
  | node :: rest, draft => by
    rw [walkAll, walk_eq placeholder node draft, passing_bind]
    simp only [walkAll_eq placeholder rest, passing_bind, Draft.notes_slotCount]
    rw [liveNodes_cons, passing_append, List.foldl_append, Node.markupAll]
    rfl

end

/-- What the walk has collected when it has met all nodes. -/
def collected (placeholder : String) (nodes : List Node) : Draft :=
  (liveNodes nodes).foldl (Draft.note placeholder) {}

/-- The checks of the live nodes come before the checks of the draft. -/
theorem generate_eq (settings : Settings) (nodes : List Node) :
    generate settings nodes = (do
      forM (liveNodes nodes) checkLive
      if settings.checkTables then
        (collected settings.updatePlaceholder nodes).check
      .ok ((collected settings.updatePlaceholder nodes).page settings
        (Node.markupAll 0 nodes))) := by
  rw [generate, walkAll_eq, passing_bind]
  rfl

theorem generate_eq_ok_iff (settings : Settings) (nodes : List Node) (page : Page) :
    generate settings nodes = .ok page ↔
      (∀ node ∈ liveNodes nodes, checkLive node = .ok ()) ∧
      (settings.checkTables = true →
        (collected settings.updatePlaceholder nodes).check = .ok ()) ∧
      (collected settings.updatePlaceholder nodes).page settings
        (Node.markupAll 0 nodes) = page := by
  rw [generate_eq, seq_eq_ok_iff, forM_eq_ok_iff]
  by_cases checked : settings.checkTables = true
  · simp only [checked, ↓reduceIte, seq_eq_ok_iff, Except.ok.injEq, forall_const]
  · simp only [checked, Bool.false_eq_true, ↓reduceIte, false_implies, true_and, Except.ok.injEq]

end Pagewright
