import Mathlib.Data.List.Basic
import Pagewright.Proofs.Live

set_option autoImplicit false

namespace Pagewright

namespace Node

/-- The title that a node sets. -/
def title? : Node → Option String
  | .app _ name => some name
  | _ => none

def declaration? : Node → Option TableDeclaration
  | .table pos name fields => some ⟨name, fields, pos⟩
  | _ => none

def schema? : Node → Option Schema
  | .table _ name fields => some (.declared name (fields.map Field.name))
  | _ => none

/-- The table of a list and what stands in the list. -/
def list? : Node → Option (String × List Node)
  | .list _ source body => some (source, body)
  | _ => none

/-- The name of a function, where it is defined. -/
def definition? : Node → Option Site
  | .function pos name _ => some ⟨name, pos⟩
  | _ => none

def handler? (placeholder : String) : Node → Option Handler
  | .function _ name body =>
    some ⟨name, (body.filterMap (Node.effect? placeholder)).map Prod.snd⟩
  | _ => none

/-- The table that a child of a function names, where it names it. -/
def use? : Node → Option Site
  | .statement pos step => step.table?.map fun table => ⟨table, pos⟩
  | _ => none

/-- The tables that a node names by itself or, if it is a function, by its statements. -/
def references : Node → List Site
  | .list pos source _ => [⟨source, pos⟩]
  | .function _ _ body => body.filterMap use?
  | _ => []

end Node

/-- A part that each node extends on its own is extended by the nodes in turn. -/
theorem Draft.notes_part {β : Type} (placeholder : String) (part : Draft → List β)
    (adds : Node → List β)
    (step : ∀ draft node, part (draft.note placeholder node) = part draft ++ adds node)
    (draft : Draft) (nodes : List Node) :
    part (nodes.foldl (Draft.note placeholder) draft) = part draft ++ nodes.flatMap adds := by
  induction nodes generalizing draft with
  | nil => exact (List.append_nil _).symm
  | cons node rest ih =>
    rw [List.foldl_cons, ih, step, List.flatMap_cons, List.append_assoc]

theorem Draft.notes_tables (placeholder : String) (nodes : List Node) :
    (nodes.foldl (Draft.note placeholder) {}).tables = nodes.filterMap Node.declaration? := by
  rw [Draft.notes_part placeholder Draft.tables (fun node => node.declaration?.toList),
    List.filterMap_eq_flatMap_toList]
  · rfl
  · intro draft node
    cases node <;> first | rfl | exact (List.append_nil _).symm

theorem Draft.notes_functions (placeholder : String) (nodes : List Node) :
    (nodes.foldl (Draft.note placeholder) {}).functions = nodes.filterMap Node.definition? := by
  rw [Draft.notes_part placeholder Draft.functions (fun node => node.definition?.toList),
    List.filterMap_eq_flatMap_toList]
  · rfl
  · intro draft node
    cases node <;> first | rfl | exact (List.append_nil _).symm

theorem Draft.notes_handlers (placeholder : String) (nodes : List Node) :
    (nodes.foldl (Draft.note placeholder) {}).handlers =
      nodes.filterMap (Node.handler? placeholder) := by
  rw [Draft.notes_part placeholder Draft.handlers (fun node => (node.handler? placeholder).toList),
    List.filterMap_eq_flatMap_toList]
  · rfl
  · intro draft node
    cases node <;> first | rfl | exact (List.append_nil _).symm

/-- Each effect of a function stands where its statement names the table. -/
theorem Node.effect?_use (placeholder : String) (node : Node) :
    (node.effect? placeholder).map (fun (pos, effect) => (⟨effect.table, pos⟩ : Site)) =
      node.use? := by
  cases node with
  | statement pos step =>
    rw [Node.use?, ← Statement.effect?_table placeholder, Node.effect?_statement]
    cases step.effect? placeholder <;> rfl
  | _ => rfl

theorem Draft.notes_references (placeholder : String) (nodes : List Node) :
    (nodes.foldl (Draft.note placeholder) {}).references = nodes.flatMap Node.references := by
  rw [Draft.notes_part placeholder Draft.references Node.references]
  · rfl
  · intro draft node
    cases node with
    | function pos name body =>
      have uses : (body.filterMap (Node.effect? placeholder)).map
          (fun (pos, effect) => (⟨effect.table, pos⟩ : Site)) = body.filterMap Node.use? := by
        rw [List.map_filterMap]
        exact List.filterMap_congr fun child _ => Node.effect?_use placeholder child
      simp only [Draft.note, Draft.addFunction, uses, Node.references]
    | list pos table body => rfl
    | _ => exact (List.append_nil _).symm

theorem Draft.notes_title (placeholder : String) (draft : Draft) (nodes : List Node) :
    (nodes.foldl (Draft.note placeholder) draft).title =
      (nodes.filterMap Node.title?).getLast?.or draft.title := by
  induction nodes generalizing draft with
  | nil => rfl
  | cons node rest ih =>
    rw [List.foldl_cons, ih]
    cases node with
    | app pos name =>
      have set : (Node.app pos name :: rest).filterMap Node.title? =
          name :: rest.filterMap Node.title? := rfl
      rw [set, List.getLast?_cons]
      cases (rest.filterMap Node.title?).getLast? <;> rfl
    | _ => rfl

/-- The template of a list with items, numbered. -/
def numberedTemplate? (entry : (String × List Node) × Nat) : Option ListTemplate :=
  if itemBodies entry.1.2 = [] then none
  else some ⟨entry.1.1, entry.2, (itemBodies entry.1.2).map (Node.showsAll id)⟩

/-- A list counts for the numbers of those behind it, whether it has items or not. -/
theorem Draft.notes_lists (placeholder : String) (draft : Draft) (nodes : List Node) :
    (nodes.foldl (Draft.note placeholder) draft).lists =
      draft.lists ++ ((nodes.filterMap Node.list?).zipIdx draft.slotCount).filterMap
        numberedTemplate? := by
  induction nodes generalizing draft with
  | nil => exact (List.append_nil _).symm
  | cons node rest ih =>
    rw [List.foldl_cons, ih, Draft.note_slotCount]
    cases node with
    | list pos table body =>
      have step : (draft.note placeholder (.list pos table body)).lists =
          draft.lists ++ (numberedTemplate? ((table, body), draft.slotCount)).toList := by
        by_cases empty : itemBodies body = []
        · simp [Draft.note, Draft.addList, numberedTemplate?, empty]
        · simp [Draft.note, Draft.addList, numberedTemplate?, empty]
      have listed : (Node.list pos table body :: rest).filterMap Node.list? =
          (table, body) :: rest.filterMap Node.list? := rfl
      rw [step, listed, List.zipIdx_cons, List.append_assoc, List.filterMap_cons]
      cases numberedTemplate? ((table, body), draft.slotCount) <;> rfl
    | _ => rfl

/-- The column that a text of an item shows: the one it names, otherwise the first. -/
def columnOf (fields : List String) (text : String) : String :=
  if text ∈ fields then text else fields.headD Schema.defaultField

theorem Template.resolveAll_append (fields : List String) (first second : List Template) :
    resolveAll fields (first ++ second) = resolveAll fields first ++ resolveAll fields second := by
  induction first with
  | nil => rfl
  | cons template rest ih => simp only [List.cons_append, resolveAll, ih]

mutual

theorem resolveAll_shows (fields : List String) : (node : Node) →
    Template.resolveAll fields (node.shows id) = node.shows (columnOf fields)
  | .text _ value => by
    simp only [Node.shows, id_eq, Template.resolveAll, Template.resolve, columnOf,
      List.contains_eq_mem, decide_eq_true_eq]
  | .block _ .column body => by
    simp only [Node.shows, Template.resolveAll, Template.resolve, resolveAll_showsAll fields body]
  | .block _ .row body => by
    simp only [Node.shows, Template.resolveAll, Template.resolve, resolveAll_showsAll fields body]
  | .button _ _ _ | .block _ .ui _ | .block _ .item _ | .block _ .db _ | .app _ _ | .input _ _ _
  | .list _ _ _ | .table _ _ _ | .function _ _ _ | .statement _ _ | .raw _ _ => rfl

/-- Resolving a template binds each text of its item once. -/
theorem resolveAll_showsAll (fields : List String) : (nodes : List Node) →
    Template.resolveAll fields (Node.showsAll id nodes) = Node.showsAll (columnOf fields) nodes
  | [] => rfl
  | node :: rest => by
    simp only [Node.showsAll, Template.resolveAll_append, resolveAll_shows fields node,
      resolveAll_showsAll fields rest]

end

/-- The slots of a table: the lists of the table that have items, each under its number among all
lists, with the templates of its items. -/
def slotsOf (schema : Schema) (lists : List (String × List Node)) : List Slot :=
  (lists.zipIdx.filter fun ((table, body), _) => table = schema.name ∧ itemBodies body ≠ []).map
    fun ((_, body), index) =>
      ⟨index, (itemBodies body).map (Node.showsAll (columnOf schema.fields))⟩

theorem slotFor_numberedTemplate? (schema : Schema) (entry : (String × List Node) × Nat) :
    ((numberedTemplate? entry).filter fun list => list.table == schema.name).map
        (ListTemplate.slotFor schema.fields) =
      if entry.1.1 = schema.name ∧ itemBodies entry.1.2 ≠ [] then
        some ⟨entry.2, (itemBodies entry.1.2).map (Node.showsAll (columnOf schema.fields))⟩
      else none := by
  unfold numberedTemplate?
  by_cases empty : itemBodies entry.1.2 = []
  · simp [empty]
  · by_cases same : entry.1.1 = schema.name
    · simp [empty, same, ListTemplate.slotFor, resolveAll_showsAll]
    · simp [empty, same]

theorem collected_renderFunction (placeholder : String) (nodes : List Node) (schema : Schema) :
    (collected placeholder nodes).renderFunction schema =
      ⟨schema, slotsOf schema ((liveNodes nodes).filterMap Node.list?)⟩ := by
  rw [Draft.renderFunction, collected, Draft.notes_lists, slotsOf]
  congr 1
  change ((((liveNodes nodes).filterMap Node.list?).zipIdx.filterMap numberedTemplate?).filter
    _).map _ = _
  rw [List.filter_filterMap, List.map_filterMap, ← List.filterMap_eq_map', List.filterMap_filter]
  apply List.filterMap_congr
  intro entry _
  rw [slotFor_numberedTemplate?]
  simp only [decide_eq_true_eq]

theorem Node.declaration?_schema (node : Node) :
    node.declaration?.map TableDeclaration.schema = node.schema? := by
  cases node <;> rfl

theorem collected_schemas (placeholder : String) (nodes : List Node) :
    (collected placeholder nodes).tables.map TableDeclaration.schema =
      (liveNodes nodes).filterMap Node.schema? := by
  rw [collected, Draft.notes_tables, List.map_filterMap]
  exact List.filterMap_congr fun node _ => node.declaration?_schema

/-- A page is determined by the live nodes of its program, part by part. -/
theorem generate_collects_live_nodes {settings : Settings} {nodes : List Node} {page : Page}
    (success : generate settings nodes = .ok page) :
    page.title = ((liveNodes nodes).filterMap Node.title?).getLast?.getD "UIX" ∧
      page.bootstrap = ⟨settings.store, (liveNodes nodes).filterMap Node.schema?⟩ ∧
      page.behavior.renderFunctions =
        ((liveNodes nodes).filterMap Node.schema?).map (fun schema =>
          ⟨schema, slotsOf schema ((liveNodes nodes).filterMap Node.list?)⟩) ∧
      page.behavior.handlers =
        (liveNodes nodes).filterMap (Node.handler? settings.updatePlaceholder) ∧
      page.markup = Node.markupAll 0 nodes ∧
      page.style = settings.style.rules := by
  obtain ⟨-, -, rfl⟩ := (generate_eq_ok_iff settings nodes page).mp success
  refine ⟨?_, ?_, ?_, ?_, rfl, rfl⟩
  · simp only [Draft.page, collected, Draft.notes_title, Option.or_none, defaultTitle]
  · simp only [Draft.page, collected_schemas]
  · simp only [Draft.page, collected_schemas]
    exact List.map_congr_left fun schema _ => collected_renderFunction _ nodes schema
  · simp only [Draft.page, collected, Draft.notes_handlers]

/-- A table declared twice, a list without items and declarations inside each other. -/
def nestedProgram : List Node :=
  [.app ⟨1, 1⟩ "first",
    .block ⟨2, 1⟩ .ui
      [.list ⟨2, 6⟩ "notes" [],
        .block ⟨3, 3⟩ .db
          [.table ⟨3, 8⟩ "notes" [],
            .block ⟨4, 5⟩ .db
              [.list ⟨4, 10⟩ "notes"
                [.raw ⟨4, 23⟩ "x",
                  .block ⟨4, 25⟩ .item [.text ⟨4, 32⟩ "body", .raw ⟨4, 42⟩ "y"]]]]],
    .table ⟨6, 1⟩ "notes" [⟨"head", ⟨6, 15⟩⟩, ⟨"body", ⟨6, 20⟩⟩],
    .function ⟨7, 1⟩ "edit"
      [.statement ⟨7, 11⟩ (.condition "done"), .statement ⟨7, 24⟩ (.update "notes" none)],
    .app ⟨8, 1⟩ "last"]

theorem generate_nestedProgram : ∃ page,
    generate { checkTables := false } nestedProgram = .ok page ∧
      page.title = "last" ∧
      page.behavior.renderFunctions =
        [⟨⟨"notes", ["text"]⟩, [⟨1, [[.field "text"]]⟩]⟩,
          ⟨⟨"notes", ["head", "body"]⟩, [⟨1, [[.field "body"]]⟩]⟩] ∧
      page.behavior.handlers = [⟨"edit", [.update "notes" (.literal "new text")]⟩] := by
  obtain ⟨page, success⟩ : ∃ page,
      generate { checkTables := false } nestedProgram = .ok page := ⟨_, rfl⟩
  obtain ⟨title, -, renderFunctions, handlers, -⟩ := generate_collects_live_nodes success
  refine ⟨page, success, title.trans ?_, renderFunctions.trans ?_, handlers.trans ?_⟩
  all_goals rfl

end Pagewright
