import Pagewright.Proofs.Collection
import Pagewright.Proofs.Names

set_option autoImplicit false

namespace Pagewright

/-- What may stand in an item. -/
def Showable : Node → Prop
  | .text _ _ | .raw _ _ => True
  | .button _ _ handler => Callable handler
  | .block _ kind _ => kind = .column ∨ kind = .row
  | _ => False

/-- What may stand in a function. A condition names no table. -/
def Performable : Node → Prop
  | .statement _ step => ∀ table, step.table? = some table → Identifier table
  | .raw _ _ => True
  | _ => False

/-- What a live node has to satisfy by itself. No item and no statement is live in a program that
has a page; what stands in a list but in no item is not looked at. -/
def Node.WellPlaced : Node → Prop
  | .block _ kind _ => kind ≠ .item
  | .button _ _ handler => Callable handler
  | .list _ source body => Identifier source ∧
      ∀ itemPos itemBody, .block itemPos .item itemBody ∈ body →
        ∀ node ∈ shownNodes itemBody, Showable node
  | .table _ name _ => Identifier name
  | .function _ name body =>
      (Callable name ∧ name ∉ Bootstrap.runtimeNames ∧ ¬ "render_".toList <+: name.toList) ∧
        ∀ child ∈ body, Performable child
  | .statement _ _ => False
  | _ => True

def Node.tableName? : Node → Option String
  | .table _ name _ => some name
  | _ => none

def Node.functionName? : Node → Option String
  | .function _ name _ => some name
  | _ => none

/-- The names of the tables that a program declares. -/
def declaredTables (nodes : List Node) : List String :=
  (liveNodes nodes).filterMap Node.tableName?

/-- Every name is declared once, and every table in use is declared. -/
structure WellDeclared (nodes : List Node) : Prop where
  tables : (declaredTables nodes).Nodup
  noKeyField : ∀ pos name fields, .table pos name fields ∈ liveNodes nodes →
    ∀ field ∈ fields, field.name ≠ "id"
  fields : ∀ pos name fields, .table pos name fields ∈ liveNodes nodes →
    (fields.map Field.name).Nodup
  functions : ((liveNodes nodes).filterMap Node.functionName?).Nodup
  listTable : ∀ pos table body, .list pos table body ∈ liveNodes nodes →
    table ∈ declaredTables nodes
  statementTable : ∀ pos name body, .function pos name body ∈ liveNodes nodes →
    ∀ stepPos step table, .statement stepPos step ∈ body → step.table? = some table →
      table ∈ declaredTables nodes

theorem checkShown_eq_ok_iff (node : Node) : checkShown node = .ok () ↔ Showable node := by
  cases node with
  | button pos label handler => exact checkCallable_eq_ok_iff .handler handler pos
  | block pos kind body => cases kind <;> simp [checkShown, BlockKind.isContainer, Showable]
  | _ => simp [checkShown, Showable]

theorem checkStep_eq_ok_iff (node : Node) : checkStep node = .ok () ↔ Performable node := by
  cases node with
  | statement pos step =>
    simp only [checkStep, Performable]
    cases step.table? with
    | none => simp
    | some table => simp [checkTableName_eq_ok_iff]
  | _ => simp [checkStep, Performable]

theorem mem_itemBodies (body : List Node) (itemBody : List Node) :
    itemBody ∈ itemBodies body ↔ ∃ itemPos, .block itemPos .item itemBody ∈ body := by
  simp only [itemBodies, List.mem_filterMap]
  constructor
  · rintro ⟨node, member, found⟩
    unfold Node.itemBody? at found
    split at found
    · cases found
      exact ⟨_, member⟩
    · cases found
  · rintro ⟨itemPos, member⟩
    exact ⟨_, member, rfl⟩

theorem checkLive_eq_ok_iff (node : Node) : checkLive node = .ok () ↔ node.WellPlaced := by
  cases node with
  | block pos kind body => cases kind <;> simp [checkLive, BlockKind.isWalked, Node.WellPlaced]
  | button pos label handler => exact checkCallable_eq_ok_iff .handler handler pos
  | list pos table body =>
    simp only [checkLive, seq_eq_ok_iff, checkTableName_eq_ok_iff, forM_eq_ok_iff, mem_itemBodies,
      checkShown_eq_ok_iff, Node.WellPlaced]
    grind
  | table pos name fields => exact checkTableName_eq_ok_iff name pos
  | function pos name body =>
    simp only [checkLive, seq_eq_ok_iff, checkFunctionName_eq_ok_iff, forM_eq_ok_iff,
      checkStep_eq_ok_iff, Node.WellPlaced]
  | _ => simp [checkLive, Node.WellPlaced]

/-- The names repeat neither each other nor a name that was seen. -/
def Fresh (seen names : List String) : Prop := names.Nodup ∧ ∀ name ∈ names, name ∉ seen

theorem fresh_nil_left (names : List String) : Fresh [] names ↔ names.Nodup := by
  simp [Fresh]

theorem fresh_cons (seen : List String) (name : String) (names : List String) :
    Fresh seen (name :: names) ↔ name ∉ seen ∧ Fresh (name :: seen) names := by
  rw [Fresh, Fresh, List.nodup_cons, List.forall_mem_cons]
  simp only [List.mem_cons, not_or]
  constructor
  · rintro ⟨⟨apart, distinct⟩, unseen, rest⟩
    refine ⟨unseen, distinct, fun other member => ⟨?_, rest other member⟩⟩
    rintro rfl
    exact apart member
  · rintro ⟨unseen, distinct, rest⟩
    exact ⟨⟨fun member => (rest name member).1 rfl, distinct⟩, unseen,
      fun other member => (rest other member).2⟩

theorem checkFields_eq_ok_iff (table : String) (seen : List String) (fields : List Field) :
    checkFields table seen fields = .ok () ↔
      (∀ field ∈ fields, field.name ≠ "id") ∧ Fresh seen (fields.map Field.name) := by
  induction fields generalizing seen with
  | nil => simp [checkFields, Fresh]
  | cons field rest ih =>
    rw [checkFields, List.map_cons, fresh_cons, List.forall_mem_cons, Schema.keyColumn]
    by_cases key : field.name = "id"
    · simp [key]
    · by_cases repeated : field.name ∈ seen
      · simp [key, repeated]
      · simp [key, repeated, ih]

theorem checkTables_eq_ok_iff (seen : List String) (tables : List TableDeclaration) :
    checkTables seen tables = .ok () ↔
      Fresh seen (tables.map TableDeclaration.name) ∧
      ∀ table ∈ tables, (∀ field ∈ table.fields, field.name ≠ "id") ∧
        (table.fields.map Field.name).Nodup := by
  induction tables generalizing seen with
  | nil => simp [checkTables, Fresh]
  | cons table rest ih =>
    rw [checkTables, List.map_cons, fresh_cons, List.forall_mem_cons]
    by_cases repeated : table.name ∈ seen
    · simp [repeated]
    · simp only [List.contains_eq_mem, repeated, decide_false, Bool.false_eq_true, ↓reduceIte,
        seq_eq_ok_iff, checkFields_eq_ok_iff, fresh_nil_left, ih, not_false_eq_true, true_and]
      exact and_left_comm

theorem checkFunctions_eq_ok_iff (seen : List String) (functions : List Site) :
    checkFunctions seen functions = .ok () ↔ Fresh seen (functions.map Site.name) := by
  induction functions generalizing seen with
  | nil => simp [checkFunctions, Fresh]
  | cons function rest ih =>
    rw [checkFunctions, List.map_cons, fresh_cons]
    by_cases repeated : function.name ∈ seen
    · simp [repeated]
    · simp [repeated, ih]

theorem checkReferences_eq_ok_iff (declared : List String) (references : List Site) :
    checkReferences declared references = .ok () ↔
      ∀ reference ∈ references, reference.name ∈ declared := by
  induction references with
  | nil => simp [checkReferences]
  | cons reference rest ih =>
    rw [checkReferences, List.forall_mem_cons]
    by_cases known : reference.name ∈ declared
    · simp [known, ih]
    · simp [known]

theorem Draft.check_eq_ok_iff (draft : Draft) :
    draft.check = .ok () ↔
      ((draft.tables.map TableDeclaration.name).Nodup ∧
        ∀ table ∈ draft.tables, (∀ field ∈ table.fields, field.name ≠ "id") ∧
          (table.fields.map Field.name).Nodup) ∧
      (draft.functions.map Site.name).Nodup ∧
      ∀ reference ∈ draft.references,
        reference.name ∈ draft.tables.map TableDeclaration.name := by
  rw [Draft.check, seq_eq_ok_iff, seq_eq_ok_iff, checkTables_eq_ok_iff, checkFunctions_eq_ok_iff,
    checkReferences_eq_ok_iff, fresh_nil_left, fresh_nil_left]

theorem collected_tableNames (placeholder : String) (nodes : List Node) :
    (collected placeholder nodes).tables.map TableDeclaration.name = declaredTables nodes := by
  rw [collected, Draft.notes_tables, List.map_filterMap, declaredTables]
  apply List.filterMap_congr
  intro node _
  cases node <;> rfl

theorem collected_functionNames (placeholder : String) (nodes : List Node) :
    (collected placeholder nodes).functions.map Site.name =
      (liveNodes nodes).filterMap Node.functionName? := by
  rw [collected, Draft.notes_functions, List.map_filterMap]
  apply List.filterMap_congr
  intro node _
  cases node <;> rfl

theorem mem_collected_tables (placeholder : String) (nodes : List Node)
    (table : TableDeclaration) :
    table ∈ (collected placeholder nodes).tables ↔
      .table table.pos table.name table.fields ∈ liveNodes nodes := by
  rw [collected, Draft.notes_tables, List.mem_filterMap]
  constructor
  · rintro ⟨node, member, found⟩
    cases node with
    | table pos name fields =>
      cases found
      exact member
    | _ => cases found
  · intro member
    exact ⟨_, member, rfl⟩

/-- A table is in use where a list or a statement of a function names it. -/
theorem mem_collected_references (placeholder : String) (nodes : List Node) (reference : Site) :
    reference ∈ (collected placeholder nodes).references ↔
      (∃ body, .list reference.pos reference.name body ∈ liveNodes nodes) ∨
      ∃ pos name body step, .function pos name body ∈ liveNodes nodes ∧
        .statement reference.pos step ∈ body ∧ step.table? = some reference.name := by
  rw [collected, Draft.notes_references, List.mem_flatMap]
  constructor
  · rintro ⟨node, member, named⟩
    cases node with
    | list pos table body =>
      cases List.mem_singleton.mp named
      exact .inl ⟨body, member⟩
    | function pos name body =>
      obtain ⟨child, inside, used⟩ := List.mem_filterMap.mp named
      cases child with
      | statement stepPos step =>
        obtain ⟨table, found, rfl⟩ := Option.map_eq_some_iff.mp used
        exact .inr ⟨pos, name, body, step, member, inside, found⟩
      | _ => cases used
    | _ => cases named
  · rintro (⟨body, member⟩ | ⟨pos, name, body, step, member, inside, found⟩)
    · exact ⟨_, member, List.mem_singleton.mpr rfl⟩
    · refine ⟨_, member, List.mem_filterMap.mpr ⟨_, inside, ?_⟩⟩
      simp only [Node.use?, found, Option.map_some]

theorem collected_check_eq_ok_iff (placeholder : String) (nodes : List Node) :
    (collected placeholder nodes).check = .ok () ↔ WellDeclared nodes := by
  rw [Draft.check_eq_ok_iff, collected_tableNames, collected_functionNames]
  constructor
  · rintro ⟨⟨tables, fields⟩, functions, references⟩
    refine ⟨tables, ?_, ?_, functions, ?_, ?_⟩
    · intro pos name declared member
      exact (fields ⟨name, declared, pos⟩ ((mem_collected_tables _ _ _).mpr member)).1
    · intro pos name declared member
      exact (fields ⟨name, declared, pos⟩ ((mem_collected_tables _ _ _).mpr member)).2
    · intro pos table body member
      exact references ⟨table, pos⟩ ((mem_collected_references _ _ _).mpr (.inl ⟨body, member⟩))
    · intro pos name body member stepPos step table inside found
      exact references ⟨table, stepPos⟩ ((mem_collected_references _ _ _).mpr
        (.inr ⟨pos, name, body, step, member, inside, found⟩))
  · intro declared
    refine ⟨⟨declared.tables, ?_⟩, declared.functions, ?_⟩
    · intro table member
      have live := (mem_collected_tables _ _ _).mp member
      exact ⟨declared.noKeyField _ _ _ live, declared.fields _ _ _ live⟩
    · intro reference member
      rcases (mem_collected_references _ _ _).mp member with
        ⟨body, live⟩ | ⟨pos, name, body, step, live, inside, found⟩
      · exact declared.listTable _ _ _ live
      · exact declared.statementTable _ _ _ live _ _ _ inside found

/-- A program has a page exactly if its live nodes are well placed and, where that is asked for, its
names are well declared. -/
theorem exists_page_iff (settings : Settings) (nodes : List Node) :
    (∃ page, generate settings nodes = .ok page) ↔
      (∀ node ∈ liveNodes nodes, node.WellPlaced) ∧
      (settings.checkTables = true → WellDeclared nodes) := by
  simp only [generate_eq_ok_iff, checkLive_eq_ok_iff, collected_check_eq_ok_iff]
  constructor
  · rintro ⟨_, placed, declared, -⟩
    exact ⟨placed, declared⟩
  · rintro ⟨placed, declared⟩
    exact ⟨_, placed, declared, rfl⟩

end Pagewright
