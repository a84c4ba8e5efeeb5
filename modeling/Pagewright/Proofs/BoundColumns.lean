import Mathlib.Data.List.Forall2
import Pagewright.Proofs.Nesting
import Pagewright.Proofs.References
import Pagewright.Proofs.StoreNames

set_option autoImplicit false

namespace Pagewright

namespace Template

mutual

/-- The columns that a template shows, besides the key that its buttons pass on. -/
def shownColumns : Template → List String
  | .field name => [name]
  | .button _ _ => []
  | .container _ children => shownColumnsAll children

def shownColumnsAll : List Template → List String
  | [] => []
  | first :: rest => first.shownColumns ++ shownColumnsAll rest

end

mutual

/-- The template shows the node, for a table with the given columns. -/
inductive Binds (fields : List String) : Node → Template → Prop
  | named {pos : Position} {text : String} (known : text ∈ fields) :
      Binds fields (.text pos text) (.field text)
  | first {pos : Position} {text column : String} {others : List String}
      (unknown : text ∉ fields) (columns : fields = column :: others) :
      Binds fields (.text pos text) (.field column)
  | button {pos : Position} {label handler : String} :
      Binds fields (.button pos label handler) (.button label handler)
  | column {pos : Position} {body : List Node} {children : List Template}
      (inside : BindsAll fields body children) :
      Binds fields (.block pos .column body) (.container .column children)
  | row {pos : Position} {body : List Node} {children : List Template}
      (inside : BindsAll fields body children) :
      Binds fields (.block pos .row body) (.container .row children)

/-- The templates show the nodes one by one, apart from the raw ones. -/
inductive BindsAll (fields : List String) : List Node → List Template → Prop
  | nil : BindsAll fields [] []
  | raw {pos : Position} {token : String} {nodes : List Node} {templates : List Template}
      (others : BindsAll fields nodes templates) :
      BindsAll fields (.raw pos token :: nodes) templates
  | cons {node : Node} {template : Template} {nodes : List Node} {templates : List Template}
      (first : Binds fields node template) (others : BindsAll fields nodes templates) :
      BindsAll fields (node :: nodes) (template :: templates)

end

end Template

open Template

section Columns

theorem columnOf_mem {fields : List String} (columns : fields ≠ []) (text : String) :
    columnOf fields text ∈ fields := by
  unfold columnOf
  split
  · assumption
  · cases fields with
    | nil => exact absurd rfl columns
    | cons column others => exact .head _

/-- A column that a text is bound to is bound to itself, also where there are no columns. -/
theorem columnOf_columnOf (fields : List String) (text : String) :
    columnOf fields (columnOf fields text) = columnOf fields text := by
  cases fields with
  | nil => rfl
  | cons column others =>
    rw [columnOf, if_pos (columnOf_mem (List.cons_ne_nil _ _) text)]

theorem Template.resolve_field (fields : List String) (text : String) :
    (Template.field text).resolve fields = .field (columnOf fields text) := by
  simp only [resolve, columnOf, List.contains_eq_mem, decide_eq_true_eq]

mutual

theorem Template.resolve_resolve (fields : List String) : (template : Template) →
    (template.resolve fields).resolve fields = template.resolve fields
  | .field text => by rw [resolve_field, resolve_field, columnOf_columnOf]
  | .button _ _ => rfl
  | .container direction children => by
    rw [resolve, resolve, resolveAll_resolveAll fields children]

/-- Templates are bound once. -/
theorem Template.resolveAll_resolveAll (fields : List String) : (templates : List Template) →
    resolveAll fields (resolveAll fields templates) = resolveAll fields templates
  | [] => rfl
  | first :: rest => by
    rw [resolveAll, resolveAll, resolve_resolve fields first, resolveAll_resolveAll fields rest]

end

end Columns

section Binds

variable {fields : List String}

mutual

theorem Template.Binds.shownColumns_subset {node : Node} {template : Template}
    (binds : Binds fields node template) : template.shownColumns ⊆ fields :=
  match binds with
  | .named known => List.cons_subset.mpr ⟨known, List.nil_subset _⟩
  | .first _ columns => List.cons_subset.mpr ⟨columns ▸ .head _, List.nil_subset _⟩
  | .button => List.nil_subset _
  | .column inside => inside.shownColumnsAll_subset
  | .row inside => inside.shownColumnsAll_subset

theorem Template.BindsAll.shownColumnsAll_subset {nodes : List Node} {templates : List Template}
    (binds : BindsAll fields nodes templates) : shownColumnsAll templates ⊆ fields :=
  match binds with
  | .nil => List.nil_subset _
  | .raw others => others.shownColumnsAll_subset
  | .cons first others =>
    List.append_subset.mpr ⟨first.shownColumns_subset, others.shownColumnsAll_subset⟩

end

mutual

theorem Template.Binds.shows_eq {node : Node} {template : Template}
    (binds : Binds fields node template) : node.shows (columnOf fields) = [template] :=
  match binds with
  | .named known => by rw [Node.shows, columnOf, if_pos known]
  | .first unknown columns => by rw [Node.shows, columnOf, if_neg unknown, columns, List.headD_cons]
  | .button => rfl
  | .column inside => by rw [Node.shows, inside.showsAll_eq]
  | .row inside => by rw [Node.shows, inside.showsAll_eq]

/-- What shows the nodes is determined by them. -/
theorem Template.BindsAll.showsAll_eq {nodes : List Node} {templates : List Template}
    (binds : BindsAll fields nodes templates) :
    Node.showsAll (columnOf fields) nodes = templates :=
  match binds with
  | .nil => rfl
  | .raw others => by
    rw [Node.showsAll, others.showsAll_eq]
    rfl
  | .cons first others => by rw [Node.showsAll, first.shows_eq, others.showsAll_eq]; rfl

end

theorem shownColumns_of_binds {bodies : List (List Node)} {items : List (List Template)}
    (binds : List.Forall₂ (BindsAll fields) bodies items) :
    ∀ item ∈ items, ∀ column ∈ shownColumnsAll item, column ∈ fields := by
  induction binds with
  | nil => exact List.forall_mem_nil _
  | cons first _ ih => exact List.forall_mem_cons.mpr ⟨first.shownColumnsAll_subset, ih⟩

mutual

/-- A node that an item may hold is shown before what shows the nodes behind it. -/
theorem Node.bindsAll_shows (columns : fields ≠ []) : (node : Node) →
    (∀ shown ∈ node.reach BlockKind.isContainer, Showable shown) →
    {rest : List Node} → {templates : List Template} → BindsAll fields rest templates →
    BindsAll fields (node :: rest) (node.shows (columnOf fields) ++ templates)
  | .text pos value, _, _, _, others => by
    refine .cons ?_ others
    unfold columnOf
    split
    · exact .named ‹_›
    · obtain ⟨column, more, rfl⟩ := List.exists_cons_of_ne_nil columns
      exact .first ‹_› rfl
  | .button _ _ _, _, _, _, others => .cons .button others
  | .block pos .column body, showable, _, _, others =>
    .cons (.column (Node.bindsAll_showsAll columns body fun shown member =>
      showable shown (.tail _ member))) others
  | .block pos .row body, showable, _, _, others =>
    .cons (.row (Node.bindsAll_showsAll columns body fun shown member =>
      showable shown (.tail _ member))) others
  | .raw _ _, _, _, _, others => .raw others
  | .block pos .ui body, showable, _, _, _ | .block pos .item body, showable, _, _, _
  | .block pos .db body, showable, _, _, _ => by
    rcases showable _ (.head _) with impossible | impossible <;> cases impossible
  | .app pos name, showable, _, _, _ => (showable (.app pos name) (.head _)).elim
  | .input pos kind id, showable, _, _, _ => (showable (.input pos kind id) (.head _)).elim
  | .list pos source body, showable, _, _, _ => (showable (.list pos source body) (.head _)).elim
  | .table pos name names, showable, _, _, _ => (showable (.table pos name names) (.head _)).elim
  | .function pos name body, showable, _, _, _ =>
    (showable (.function pos name body) (.head _)).elim
  | .statement pos step, showable, _, _, _ => (showable (.statement pos step) (.head _)).elim

theorem Node.bindsAll_showsAll (columns : fields ≠ []) : (nodes : List Node) →
    (∀ shown ∈ shownNodes nodes, Showable shown) →
    BindsAll fields nodes (Node.showsAll (columnOf fields) nodes)
  | [], _ => .nil
  | node :: rest, showable => by
    rw [shownNodes_cons, List.forall_mem_append] at showable
    exact Node.bindsAll_shows columns node showable.1
      (Node.bindsAll_showsAll columns rest showable.2)

end

/-- The items that show the items of a program are those that the walk collects, bound to the
columns of the table. -/
theorem forall₂_bindsAll_iff (columns : fields ≠ []) {bodies : List (List Node)}
    {items : List (List Template)}
    (showable : ∀ body ∈ bodies, ∀ shown ∈ shownNodes body, Showable shown) :
    List.Forall₂ (BindsAll fields) bodies items ↔
      bodies.map (Node.showsAll (columnOf fields)) = items := by
  constructor
  · intro binds
    rw [← List.forall₂_eq_eq_eq, List.forall₂_map_left_iff]
    exact binds.imp fun _ _ each => each.showsAll_eq
  · rintro rfl
    rw [List.forall₂_map_right_iff, List.forall₂_same]
    exact fun body member => Node.bindsAll_showsAll columns body (showable body member)

end Binds

/-- A render function fills a slot for each list of its table with items, under the number of the
list, and shows there what stands in the items. All columns that it shows are among those that its
query selects, each bound to the column that its text names, otherwise to the first; so they keep
their columns if they are bound again. -/
theorem generate_binds_columns {settings : Settings} {nodes : List Node} {page : Page}
    (success : generate settings nodes = .ok page) :
    (∀ function ∈ page.behavior.renderFunctions,
      quotedNames none function.table.select.toList =
        "id" :: function.table.fields ++ [function.table.name] ∧
      (∀ slot, slot ∈ function.slots ↔
        ∃ body, (listsOf (liveNodes nodes))[slot.index]? = some (function.table.name, body) ∧
          itemBodies body ≠ [] ∧
          List.Forall₂ (BindsAll function.table.fields) (itemBodies body) slot.items) ∧
      ∀ slot ∈ function.slots, ∀ item ∈ slot.items,
        ∀ column ∈ shownColumnsAll item, column ∈ function.table.fields) ∧
    ∀ fields templates,
      resolveAll fields (resolveAll fields templates) = resolveAll fields templates := by
  refine ⟨?_, resolveAll_resolveAll⟩
  obtain ⟨placed, -, rfl⟩ := (generate_eq_ok_iff_livePage settings nodes page).mp success
  refine List.forall_mem_map.mpr fun schema member => ?_
  have columns : schema.fields ≠ [] := by
    obtain ⟨pos, name, fields, -, rfl⟩ := (mem_schema?_iff _ _).mp member
    exact Schema.declared_fields_ne_nil _ _
  have slots : ∀ slot, slot ∈ slotsOf schema (listsOf (liveNodes nodes)) ↔
      ∃ body, (listsOf (liveNodes nodes))[slot.index]? = some (schema.name, body) ∧
        itemBodies body ≠ [] ∧
        List.Forall₂ (BindsAll schema.fields) (itemBodies body) slot.items := by
    intro slot
    rw [mem_slotsOf_iff]
    refine exists_congr fun body => and_congr_right fun listed => and_congr_right fun _ => ?_
    obtain ⟨pos, live⟩ := (mem_list?_iff _ _ _).mp (List.mem_of_getElem? listed)
    refine (forall₂_bindsAll_iff columns fun item inList => ?_).symm
    obtain ⟨itemPos, stands⟩ := (mem_itemBodies _ _).mp inList
    exact (placed _ live).2 itemPos item stands
  refine ⟨schema.quotedNames_select, slots, fun slot filled => ?_⟩
  obtain ⟨body, -, -, binds⟩ := (slots slot).mp filled
  exact shownColumns_of_binds binds

/-- Two tables of one name, of which only the second has the column that the list names. -/
def twinTables : List Node :=
  [.table ⟨1, 1⟩ "notes" [],
    .table ⟨2, 1⟩ "notes" [⟨"head", ⟨2, 15⟩⟩, ⟨"body", ⟨2, 20⟩⟩],
    .list ⟨3, 1⟩ "notes"
      [.block ⟨3, 12⟩ .item
        [.block ⟨3, 17⟩ .row [.text ⟨3, 23⟩ "body", .raw ⟨3, 33⟩ "bold"],
          .button ⟨3, 40⟩ "x" "go", .text ⟨3, 52⟩ "id"]]]

theorem generate_twinTables : ∃ page,
    generate { checkTables := false } twinTables = .ok page ∧
    page.behavior.renderFunctions.map (fun function =>
        (function.table.fields, function.slots.map Slot.items)) =
      [(["text"],
          [[[.container .row [.field "text"], .button "x" "go", .field "text"]]]),
        (["head", "body"],
          [[[.container .row [.field "body"], .button "x" "go", .field "head"]]])] ∧
    ∀ function ∈ page.behavior.renderFunctions,
      quotedNames none function.table.select.toList =
        "id" :: function.table.fields ++ [function.table.name] ∧
      ∀ slot ∈ function.slots, ∀ item ∈ slot.items,
        ∀ column ∈ shownColumnsAll item, column ∈ function.table.fields := by
  have shown : (generate { checkTables := false } twinTables).map (fun page =>
      page.behavior.renderFunctions.map fun function =>
        (function.table.fields, function.slots.map Slot.items)) = .ok
      [(["text"],
          [[[.container .row [.field "text"], .button "x" "go", .field "text"]]]),
        (["head", "body"],
          [[[.container .row [.field "body"], .button "x" "go", .field "head"]]])] := rfl
  obtain ⟨page, success⟩ : ∃ page, generate { checkTables := false } twinTables = .ok page :=
    ⟨_, rfl⟩
  rw [success] at shown
  obtain ⟨functions, -⟩ := generate_binds_columns success
  refine ⟨page, success, Except.ok.inj shown, fun function member => ?_⟩
  obtain ⟨names, -, within⟩ := functions function member
  exact ⟨names, within⟩

end Pagewright
