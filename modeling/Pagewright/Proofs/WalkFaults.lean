import Pagewright.Proofs.Nesting

set_option autoImplicit false

namespace Pagewright

section Contexts

variable {node : Node}

theorem Context.of_accepts_list (accepted : Context.list.accepts node = true) :
    node.isItem = true ∨ node.isRaw = true :=
  (Bool.or_eq_true_iff.mp accepted).symm

theorem Context.of_accepts_db (accepted : Context.db.accepts node = true) :
    node.isTable = true ∨ node.isRaw = true :=
  (Bool.or_eq_true_iff.mp accepted).symm

theorem Context.of_accepts_function (accepted : Context.function.accepts node = true) :
    node.isStatement = true ∨ node.isRaw = true :=
  (Bool.or_eq_true_iff.mp accepted).symm

/-- The block takes no item and no statement. -/
theorem BlockKind.of_accepts {kind : BlockKind} (accepted : kind.context.accepts node = true) :
    node.isItem = false ∧ node.isStatement = false := by
  cases node with
  | statement pos step => cases kind <;> cases accepted
  | block pos inner body =>
    refine ⟨?_, rfl⟩
    cases inner with
    | item => cases kind <;> cases accepted
    | _ => rfl
  | _ => exact ⟨rfl, rfl⟩

theorem Context.of_accepts_general (accepted : Context.general.accepts node = true) :
    node.isItem = false ∧ node.isStatement = false := by
  have inside : BlockKind.ui.context.accepts node = true := accepted
  exact BlockKind.of_accepts inside

end Contexts

section Live

/-- A node that the walk can meet in a nested program. -/
def Node.MayBeLive (node : Node) : Prop :=
  node.isItem = false ∧ node.isStatement = false ∧ node.Nested

mutual

theorem Node.mayBeLive_of_mem_reach : (node : Node) → node.MayBeLive →
    ∀ live ∈ node.reach BlockKind.isWalked, live.MayBeLive
  | .block pos kind body, may => by
    rw [Node.reach, List.forall_mem_cons]
    refine ⟨may, ?_⟩
    split
    · exact Node.mayBeLive_of_mem_reachAll kind body may.2.2
    · exact List.forall_mem_nil _
  | .list _ _ _, may | .function _ _ _, may | .app _ _, may | .text _ _, may | .input _ _ _, may
  | .button _ _ _, may | .table _ _ _, may | .statement _ _, may | .raw _ _, may =>
    List.forall_mem_singleton.mpr may

theorem Node.mayBeLive_of_mem_reachAll (kind : BlockKind) : (nodes : List Node) →
    Node.NestedAll kind.context nodes →
    ∀ live ∈ Node.reachAll BlockKind.isWalked nodes, live.MayBeLive
  | [], _ => List.forall_mem_nil _
  | node :: rest, nested => by
    obtain ⟨accepted, inside, others⟩ := nested
    obtain ⟨noItem, noStatement⟩ := BlockKind.of_accepts accepted
    rw [Node.reachAll, List.forall_mem_append]
    exact ⟨Node.mayBeLive_of_mem_reach node ⟨noItem, noStatement, inside⟩,
      Node.mayBeLive_of_mem_reachAll kind rest others⟩

end

theorem mayBeLive_of_mem_liveNodes {nodes : List Node} (nested : Node.NestedAll .general nodes) :
    ∀ live ∈ liveNodes nodes, live.MayBeLive :=
  Node.mayBeLive_of_mem_reachAll .ui nodes nested

end Live

/-- Faults that do not say where a node would be allowed. What an item cannot show is named by its
keyword. -/
def GenerationFault.InPlace : GenerationFault → Prop
  | .misplaced _ _ => False
  | .unsupportedInItem opening => ∃ keyword : Keyword, keyword.spelling = opening
  | .invalidName _ _ | .reservedFunction _ | .repeatedTable _ | .reservedField _ _
  | .repeatedField _ _ | .repeatedFunction _ | .unknownTable _ => True

/-- The position of a node of the program, or of a field that one of its tables declares. -/
inductive ProgramPlace (nodes : List Node) : Position → Prop
  | node {node : Node} (member : node ∈ Node.subtreeAll nodes) : ProgramPlace nodes node.pos
  | field {pos : Position} {name : String} {fields : List Field} {field : Field}
      (member : .table pos name fields ∈ Node.subtreeAll nodes) (declared : field ∈ fields) :
      ProgramPlace nodes field.pos

/-- If the walk fails, it is at one of the given positions and for another reason than the place of
a node. -/
def RefusesAt {α : Type} (places : Position → Prop) (walk : Walk α) : Prop :=
  ∀ diagnostic, walk = .error diagnostic →
    ∃ pos fault, diagnostic = .generation pos fault ∧ places pos ∧ fault.InPlace

section RefusesAt

variable {α β : Type} {places : Position → Prop}

theorem refusesAt_ok (value : α) : RefusesAt places (.ok value : Walk α) := by
  intro diagnostic failed
  cases failed

theorem refusesAt_error {pos : Position} (here : places pos) (fault : GenerationFault)
    (inPlace : fault.InPlace) : RefusesAt places (.error (.generation pos fault) : Walk α) := by
  intro diagnostic failed
  cases failed
  exact ⟨pos, fault, rfl, here, inPlace⟩

theorem RefusesAt.seq {first : Walk Unit} {next : Walk β} (refuses : RefusesAt places first)
    (later : RefusesAt places next) : RefusesAt places (first >>= fun _ => next) := by
  intro diagnostic failed
  rcases (seq_eq_error_iff first next diagnostic).mp failed with failed | ⟨-, failed⟩
  · exact refuses diagnostic failed
  · exact later diagnostic failed

theorem refusesAt_forM {check : α → Walk Unit} {items : List α}
    (each : ∀ item ∈ items, RefusesAt places (check item)) :
    RefusesAt places (forM items check) := by
  intro diagnostic failed
  obtain ⟨item, member, failed⟩ := exists_of_forM_eq_error check failed
  exact each item member diagnostic failed

section

variable {pos : Position} (here : places pos)

include here

theorem refusesAt_checkTableName (name : String) :
    RefusesAt places (checkTableName name pos) := by
  unfold checkTableName
  split
  · exact refusesAt_ok _
  · exact refusesAt_error here (.invalidName .table name) trivial

theorem refusesAt_checkCallable (role : Role) (name : String) :
    RefusesAt places (checkCallable role name pos) := by
  unfold checkCallable
  split
  · exact refusesAt_ok _
  · exact refusesAt_error here (.invalidName role name) trivial

theorem refusesAt_checkFunctionName (name : String) :
    RefusesAt places (checkFunctionName name pos) := by
  unfold checkFunctionName
  apply (refusesAt_checkCallable here .function name).seq
  split
  · exact refusesAt_error here (.reservedFunction name) trivial
  · exact refusesAt_ok _

end

theorem Node.exists_keyword_of_not_raw {node : Node} (notRaw : node.isRaw = false) :
    ∃ keyword : Keyword, keyword.spelling = node.opening := by
  cases node with
  | raw => cases notRaw
  | app => exact ⟨.app, rfl⟩
  | block pos kind body => exact ⟨.block kind, rfl⟩
  | text => exact ⟨.text, rfl⟩
  | input => exact ⟨.input, rfl⟩
  | button => exact ⟨.button, rfl⟩
  | list => exact ⟨.list, rfl⟩
  | table => exact ⟨.table, rfl⟩
  | function => exact ⟨.function, rfl⟩
  | statement pos step => exact ⟨step.keyword, rfl⟩

theorem refusesAt_checkShown {node : Node} (here : places node.pos) :
    RefusesAt places (checkShown node) := by
  -- What cannot be shown is no raw node.
  have unsupported : node.isRaw = false →
      RefusesAt places (.error (.generation node.pos (.unsupportedInItem node.opening)) :
        Walk Unit) :=
    fun notRaw => refusesAt_error here (.unsupportedInItem node.opening)
      (Node.exists_keyword_of_not_raw notRaw)
  cases node with
  | text | raw => exact refusesAt_ok _
  | button pos label handler => exact refusesAt_checkCallable here .handler handler
  | block pos kind body =>
    rw [checkShown]
    split
    · exact refusesAt_ok _
    · exact unsupported rfl
  | _ => exact unsupported rfl

theorem refusesAt_checkStep {node : Node} (here : places node.pos)
    (accepted : Context.function.accepts node = true) : RefusesAt places (checkStep node) := by
  cases node with
  | statement pos step =>
    rw [checkStep]
    split
    · exact refusesAt_checkTableName here _
    · exact refusesAt_ok _
  | raw => exact refusesAt_ok _
  | _ => cases accepted

/-- What the walk checks of a node that stands where it may. -/
theorem refusesAt_checkLive {node : Node} (may : node.MayBeLive)
    (covered : ∀ below ∈ node.subtree, places below.pos) : RefusesAt places (checkLive node) := by
  obtain ⟨noItem, noStatement, nested⟩ := may
  have here : places node.pos := covered node node.mem_subtree_self
  cases node with
  | block pos kind body =>
    cases kind with
    | item => cases noItem
    | _ => exact refusesAt_ok _
  | button pos label handler => exact refusesAt_checkCallable here .handler handler
  | list pos table body =>
    apply (refusesAt_checkTableName here table).seq
    apply refusesAt_forM
    intro item member
    apply refusesAt_forM
    intro shown inItem
    apply refusesAt_checkShown
    apply covered
    obtain ⟨itemPos, inList⟩ := (mem_itemBodies body item).mp member
    have inside := Node.subtree_subset_of_mem_reachAll item shown inItem shown.mem_subtree_self
    exact .tail _ (Node.mem_subtreeAll_iff.mpr ⟨_, inList, .tail _ inside⟩)
  | table pos name fields => exact refusesAt_checkTableName here name
  | function pos name body =>
    apply (refusesAt_checkFunctionName here name).seq
    apply refusesAt_forM
    intro child member
    have below : child ∈ Node.subtreeAll body :=
      Node.mem_subtreeAll_iff.mpr ⟨child, member, child.mem_subtree_self⟩
    exact refusesAt_checkStep (covered child (.tail _ below))
      ((Node.nestedAll_iff .function body).mp nested child member).1
  | statement => cases noStatement
  | _ => exact refusesAt_ok _

theorem refusesAt_checkFields (table : String) (seen : List String) {fields : List Field}
    (covered : ∀ field ∈ fields, places field.pos) :
    RefusesAt places (checkFields table seen fields) := by
  induction fields generalizing seen with
  | nil => exact refusesAt_ok _
  | cons field rest ih =>
    obtain ⟨here, others⟩ := List.forall_mem_cons.mp covered
    unfold checkFields
    split
    · exact refusesAt_error here (.reservedField field.name table) trivial
    · split
      · exact refusesAt_error here (.repeatedField field.name table) trivial
      · exact ih _ others

theorem refusesAt_checkTables (seen : List String) {tables : List TableDeclaration}
    (covered : ∀ table ∈ tables, places table.pos ∧ ∀ field ∈ table.fields, places field.pos) :
    RefusesAt places (checkTables seen tables) := by
  induction tables generalizing seen with
  | nil => exact refusesAt_ok _
  | cons table rest ih =>
    obtain ⟨⟨here, inside⟩, others⟩ := List.forall_mem_cons.mp covered
    unfold checkTables
    split
    · exact refusesAt_error here (.repeatedTable table.name) trivial
    · exact (refusesAt_checkFields table.name [] inside).seq (ih _ others)

theorem refusesAt_checkFunctions (seen : List String) {functions : List Site}
    (covered : ∀ function ∈ functions, places function.pos) :
    RefusesAt places (checkFunctions seen functions) := by
  induction functions generalizing seen with
  | nil => exact refusesAt_ok _
  | cons function rest ih =>
    obtain ⟨here, others⟩ := List.forall_mem_cons.mp covered
    unfold checkFunctions
    split
    · exact refusesAt_error here (.repeatedFunction function.name) trivial
    · exact ih _ others

theorem refusesAt_checkReferences (declared : List String) {references : List Site}
    (covered : ∀ reference ∈ references, places reference.pos) :
    RefusesAt places (checkReferences declared references) := by
  induction references with
  | nil => exact refusesAt_ok _
  | cons reference rest ih =>
    obtain ⟨here, others⟩ := List.forall_mem_cons.mp covered
    unfold checkReferences
    split
    · exact ih others
    · exact refusesAt_error here (.unknownTable reference.name) trivial

/-- What a draft has collected stands in the program. -/
theorem refusesAt_check_collected (placeholder : String) (nodes : List Node) :
    RefusesAt (ProgramPlace nodes) (collected placeholder nodes).check := by
  have below : ∀ live ∈ liveNodes nodes, live ∈ Node.subtreeAll nodes := fun live member =>
    Node.subtree_subset_of_mem_reachAll nodes live member live.mem_subtree_self
  have tables :
      RefusesAt (ProgramPlace nodes) (checkTables [] (collected placeholder nodes).tables) :=
    refusesAt_checkTables [] fun table member => by
      have inside := below _ ((mem_collected_tables _ _ _).mp member)
      exact ⟨.node inside, fun field declared => .field inside declared⟩
  have functions :
      RefusesAt (ProgramPlace nodes) (checkFunctions [] (collected placeholder nodes).functions) :=
    refusesAt_checkFunctions [] fun function member => by
      rw [collected, Draft.notes_functions, List.mem_filterMap] at member
      obtain ⟨node, live, found⟩ := member
      cases node with
      | function pos name body =>
        cases found
        exact .node (below _ live)
      | _ => cases found
  have references : RefusesAt (ProgramPlace nodes) (checkReferences
      ((collected placeholder nodes).tables.map TableDeclaration.name)
      (collected placeholder nodes).references) :=
    refusesAt_checkReferences _ fun reference member => by
      rcases (mem_collected_references _ _ _).mp member with
        ⟨body, live⟩ | ⟨pos, name, body, step, live, inside, -⟩
      · exact .node (below _ live)
      · have child : .statement reference.pos step ∈ (Node.function pos name body).subtree :=
          .tail _ (Node.mem_subtreeAll_iff.mpr ⟨_, inside, .head _⟩)
        exact .node (Node.subtree_subset_of_mem_reachAll nodes _ live child)
  exact tables.seq (functions.seq references)

/-- No walk over a nested program meets a misplaced node, and all that it reports stands in the
program. -/
theorem Node.NestedAll.refusesAt_generate {nodes : List Node}
    (nested : Node.NestedAll .general nodes) (settings : Settings) :
    RefusesAt (ProgramPlace nodes) (generate settings nodes) := by
  rw [generate_eq]
  refine RefusesAt.seq (refusesAt_forM fun live member => ?_) ?_
  · have may := mayBeLive_of_mem_liveNodes nested live member
    refine refusesAt_checkLive may fun below inside => ?_
    exact .node (Node.subtree_subset_of_mem_reachAll nodes live member inside)
  · split
    · exact (refusesAt_check_collected _ nodes).seq (refusesAt_ok _)
    · exact refusesAt_ok _

end RefusesAt

end Pagewright
