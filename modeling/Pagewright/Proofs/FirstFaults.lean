import Pagewright.Proofs.Acceptance

set_option autoImplicit false

namespace Pagewright

section FirstFault

variable {α β : Type} (Offends : α → Diagnostic → Prop)

/-- The diagnostic of the first item that offends. -/
def FirstFault (items : List α) (diagnostic : Diagnostic) : Prop :=
  ∃ front item back, items = front ++ item :: back ∧
    (∀ earlier ∈ front, ∀ other, ¬ Offends earlier other) ∧ Offends item diagnostic

/-- The walk fails exactly as the first item that offends. -/
def Reports (walk : Walk Unit) (items : List α) : Prop :=
  ∀ diagnostic, walk = .error diagnostic ↔ FirstFault Offends items diagnostic

theorem firstFault_cons (item : α) (rest : List α) (diagnostic : Diagnostic) :
    FirstFault Offends (item :: rest) diagnostic ↔
      Offends item diagnostic ∨
        (∀ other, ¬ Offends item other) ∧ FirstFault Offends rest diagnostic := by
  constructor
  · rintro ⟨front, found, back, split, harmless, offends⟩
    cases front with
    | nil =>
      cases split
      exact .inl offends
    | cons first front =>
      cases split
      obtain ⟨here, later⟩ := List.forall_mem_cons.mp harmless
      exact .inr ⟨here, front, found, back, rfl, later, offends⟩
  · rintro (offends | ⟨here, front, found, back, rfl, later, offends⟩)
    · exact ⟨[], item, rest, rfl, List.forall_mem_nil _, offends⟩
    · exact ⟨item :: front, found, back, rfl, List.forall_mem_cons.mpr ⟨here, later⟩, offends⟩

theorem firstFault_append (items others : List α) (diagnostic : Diagnostic) :
    FirstFault Offends (items ++ others) diagnostic ↔
      FirstFault Offends items diagnostic ∨
        (∀ other, ¬ FirstFault Offends items other) ∧ FirstFault Offends others diagnostic := by
  induction items with
  | nil => simp [FirstFault]
  | cons item rest ih =>
    rw [List.cons_append, firstFault_cons, ih]
    simp only [firstFault_cons, not_or, not_and, forall_and]
    tauto

theorem Walk.eq_ok_iff (walk : Walk Unit) :
    walk = .ok () ↔ ∀ diagnostic, walk ≠ .error diagnostic := by
  cases walk <;> simp

variable {Offends}

theorem reports_nil : Reports Offends (.ok ()) [] := by
  intro diagnostic
  simp [FirstFault]

/-- A single check reports its item. -/
theorem reports_singleton {check : Walk Unit} {item : α}
    (rule : ∀ diagnostic, check = .error diagnostic ↔ Offends item diagnostic) :
    Reports Offends check [item] := by
  intro diagnostic
  rw [rule, firstFault_cons]
  simp [FirstFault]

/-- A scan that stops at an item that offends, and goes on with the others after one that does
not. -/
theorem Reports.cons {walk next : Walk Unit} {item : α} {rest : List α}
    (refused : ∀ diagnostic, Offends item diagnostic → walk = .error diagnostic)
    (passed : (∀ diagnostic, ¬ Offends item diagnostic) → walk = next)
    (others : Reports Offends next rest) : Reports Offends walk (item :: rest) := by
  intro diagnostic
  rw [firstFault_cons]
  by_cases harmless : ∀ other, ¬ Offends item other
  · rw [passed harmless, others diagnostic]
    simp [harmless]
  · have offends : ∃ other, Offends item other := not_forall_not.mp harmless
    constructor
    · intro failed
      obtain ⟨other, offends⟩ := offends
      have same := (refused other offends).symm.trans failed
      cases same
      exact .inl offends
    · rintro (offends | ⟨impossible, -⟩)
      · exact refused diagnostic offends
      · exact absurd impossible harmless

theorem Reports.seq {first next : Walk Unit} {items others : List α}
    (reports : Reports Offends first items) (later : Reports Offends next others) :
    Reports Offends (first >>= fun _ => next) (items ++ others) := by
  intro diagnostic
  rw [seq_eq_error_iff, firstFault_append, reports diagnostic, Walk.eq_ok_iff, later diagnostic]
  simp only [ne_eq, reports _]

theorem reports_forM {check : β → Walk Unit} {spread : β → List α}
    (each : ∀ item, Reports Offends (check item) (spread item)) (items : List β) :
    Reports Offends (forM items check) (items.flatMap spread) := by
  induction items with
  | nil => exact reports_nil
  | cons item rest ih =>
    rw [List.forM_cons, List.flatMap_cons]
    exact (each item).seq ih

end FirstFault

section Walk

/-- How the walk meets a node: on its way through the program, in an item or in a function. -/
inductive Standing where
  | program | item | function
deriving DecidableEq, Repr

/-- What is wrong with a node by itself, where the walk meets it. -/
inductive Node.Breaks : Standing → Node → GenerationFault → Prop
  | strayItem {node : Node} (item : node.isItem = true) :
      Breaks .program node (.misplaced node.opening .insideList)
  | strayStatement {node : Node} (statement : node.isStatement = true) :
      Breaks .program node (.misplaced node.opening .insideFunction)
  | handler {standing : Standing} {pos : Position} {label name : String}
      (shown : standing ≠ .function) (misnamed : ¬ Callable name) :
      Breaks standing (.button pos label name) (.invalidName .handler name)
  | listTable {pos : Position} {name : String} {body : List Node} (misnamed : ¬ Identifier name) :
      Breaks .program (.list pos name body) (.invalidName .table name)
  | table {pos : Position} {name : String} {fields : List Field} (misnamed : ¬ Identifier name) :
      Breaks .program (.table pos name fields) (.invalidName .table name)
  | function {pos : Position} {name : String} {body : List Node} (misnamed : ¬ Callable name) :
      Breaks .program (.function pos name body) (.invalidName .function name)
  | reserved {pos : Position} {name : String} {body : List Node} (wellNamed : Callable name)
      (taken : name ∈ Bootstrap.runtimeNames ∨ "render_".toList <+: name.toList) :
      Breaks .program (.function pos name body) (.reservedFunction name)
  | unsupported {node : Node} (notButton : ∀ pos label name, node ≠ .button pos label name)
      (hidden : ¬ Showable node) : Breaks .item node (.unsupportedInItem node.opening)
  | stray {node : Node} (notStatement : node.isStatement = false) (notRaw : node.isRaw = false) :
      Breaks .function node (.misplaced node.opening .outsideFunction)
  | stepTable {pos : Position} {step : Statement} {name : String} (named : step.table? = some name)
      (misnamed : ¬ Identifier name) :
      Breaks .function (.statement pos step) (.invalidName .table name)

structure Visit where
  standing : Standing
  node : Node

/-- A node is reported where it stands. -/
def Visit.Offends (visit : Visit) (diagnostic : Diagnostic) : Prop :=
  ∃ fault, visit.node.Breaks visit.standing fault ∧
    diagnostic = .generation visit.node.pos fault

/-- A node on the way through the program, and what the walk meets in it: the nodes of its items if
it is a list, its children if it is a function. -/
def Node.visits : Node → List Visit
  | .list pos source body =>
    ⟨.program, .list pos source body⟩ ::
      (itemBodies body).flatMap fun item => (shownNodes item).map fun node => ⟨.item, node⟩
  | .function pos name body =>
    ⟨.program, .function pos name body⟩ :: body.map fun child => ⟨.function, child⟩
  | node => [⟨.program, node⟩]

/-- All that the walk meets, in order: parents before their children, siblings from first to
last. -/
def visits (nodes : List Node) : List Visit := (liveNodes nodes).flatMap Node.visits

variable (diagnostic : Diagnostic)

theorem require_eq_error_iff (condition : Prop) [Decidable condition] (fault : Diagnostic) :
    (if condition then .ok () else .error fault : Walk Unit) = .error diagnostic ↔
      ¬ condition ∧ diagnostic = fault := by
  by_cases holds : condition
  · simp [holds]
  · simp [holds, eq_comm]

theorem checkTableName_eq_error_iff (name : String) (pos : Position) :
    checkTableName name pos = .error diagnostic ↔
      ¬ Identifier name ∧ diagnostic = .generation pos (.invalidName .table name) := by
  rw [checkTableName, require_eq_error_iff, isIdentifier_iff]

theorem checkCallable_eq_error_iff (role : Role) (name : String) (pos : Position) :
    checkCallable role name pos = .error diagnostic ↔
      ¬ Callable name ∧ diagnostic = .generation pos (.invalidName role name) := by
  rw [checkCallable, require_eq_error_iff, isCallable_iff]

theorem checkFunctionName_eq_error_iff (name : String) (pos : Position) :
    checkFunctionName name pos = .error diagnostic ↔
      ¬ Callable name ∧ diagnostic = .generation pos (.invalidName .function name) ∨
      Callable name ∧ (name ∈ Bootstrap.runtimeNames ∨ "render_".toList <+: name.toList) ∧
        diagnostic = .generation pos (.reservedFunction name) := by
  rw [checkFunctionName, seq_eq_error_iff, checkCallable_eq_error_iff, checkCallable_eq_ok_iff,
    ← isReservedFunction_iff]
  by_cases taken : isReservedFunction name = true
  · simp [taken, eq_comm]
  · simp [taken]

theorem checkShown_other {node : Node}
    (notButton : ∀ pos label name, node ≠ .button pos label name) :
    checkShown node = .error diagnostic ↔ ¬ Showable node ∧
      diagnostic = .generation node.pos (.unsupportedInItem node.opening) := by
  cases node with
  | button pos label name => exact absurd rfl (notButton pos label name)
  | block pos kind body =>
    cases kind <;> simp [checkShown, BlockKind.isContainer, Showable, Node.pos, eq_comm]
  | _ => simp [checkShown, Showable, eq_comm]

theorem checkShown_eq_error_iff (node : Node) :
    checkShown node = .error diagnostic ↔ Visit.Offends ⟨.item, node⟩ diagnostic := by
  by_cases button : ∃ pos label name, node = .button pos label name
  · obtain ⟨pos, label, name, rfl⟩ := button
    rw [checkShown, checkCallable_eq_error_iff]
    constructor
    · rintro ⟨misnamed, rfl⟩
      exact ⟨_, .handler Standing.noConfusion misnamed, rfl⟩
    · rintro ⟨fault, broken, rfl⟩
      cases broken with
      | handler _ misnamed => exact ⟨misnamed, rfl⟩
      | unsupported notButton => exact absurd rfl (notButton pos label name)
  · have notButton : ∀ pos label name, node ≠ .button pos label name :=
      fun pos label name same => button ⟨pos, label, name, same⟩
    rw [checkShown_other diagnostic notButton]
    constructor
    · rintro ⟨hidden, rfl⟩
      exact ⟨_, .unsupported notButton hidden, rfl⟩
    · rintro ⟨fault, broken, rfl⟩
      cases broken with
      | handler => exact absurd rfl (notButton _ _ _)
      | unsupported _ hidden => exact ⟨hidden, rfl⟩

theorem checkStep_eq_error_iff (node : Node) :
    checkStep node = .error diagnostic ↔ Visit.Offends ⟨.function, node⟩ diagnostic := by
  constructor
  · intro failed
    cases node with
    | statement pos step =>
      cases named : step.table? with
      | none => simp [checkStep, named] at failed
      | some name =>
        simp only [checkStep, named, checkTableName_eq_error_iff] at failed
        exact ⟨_, .stepTable named failed.1, failed.2⟩
    | raw pos token => cases failed
    | _ =>
      cases failed
      exact ⟨_, .stray rfl rfl, rfl⟩
  · rintro ⟨fault, broken, rfl⟩
    cases broken with
    | handler notFunction => exact absurd rfl notFunction
    | stray notStatement notRaw =>
      cases node with
      | statement => cases notStatement
      | raw => cases notRaw
      | _ => rfl
    | stepTable named misnamed =>
      simp only [checkStep, named]
      exact (checkTableName_eq_error_iff _ _ _).mpr ⟨misnamed, rfl⟩

/-- The walk reports, in a live node, the first of what it meets there. -/
theorem reports_checkLive (node : Node) : Reports Visit.Offends (checkLive node) node.visits := by
  have shown : ∀ item, Reports Visit.Offends (forM (shownNodes item) checkShown)
      ((shownNodes item).map fun node => ⟨.item, node⟩) := by
    intro item
    rw [List.map_eq_flatMap]
    exact reports_forM (fun node => reports_singleton fun _ => checkShown_eq_error_iff _ node) _
  cases node with
  | list pos source body =>
    refine Reports.seq (reports_singleton fun diagnostic => ?_) (reports_forM shown _)
    rw [checkTableName_eq_error_iff]
    constructor
    · rintro ⟨misnamed, rfl⟩
      exact ⟨_, .listTable misnamed, rfl⟩
    · rintro ⟨fault, broken, rfl⟩
      cases broken with
      | strayItem other | strayStatement other => cases other
      | listTable misnamed => exact ⟨misnamed, rfl⟩
  | function pos name body =>
    have steps : Reports Visit.Offends (forM body checkStep)
        (body.map fun child => ⟨.function, child⟩) := by
      rw [List.map_eq_flatMap]
      exact reports_forM (fun node => reports_singleton fun _ => checkStep_eq_error_iff _ node) _
    refine Reports.seq (reports_singleton fun diagnostic => ?_) steps
    rw [checkFunctionName_eq_error_iff]
    constructor
    · rintro (⟨misnamed, rfl⟩ | ⟨wellNamed, taken, rfl⟩)
      · exact ⟨_, .function misnamed, rfl⟩
      · exact ⟨_, .reserved wellNamed taken, rfl⟩
    · rintro ⟨fault, broken, rfl⟩
      cases broken with
      | strayItem other | strayStatement other => cases other
      | function misnamed => exact .inl ⟨misnamed, rfl⟩
      | reserved wellNamed taken => exact .inr ⟨wellNamed, taken, rfl⟩
  | button pos label name =>
    refine reports_singleton fun diagnostic => ?_
    rw [checkLive, checkCallable_eq_error_iff]
    constructor
    · rintro ⟨misnamed, rfl⟩
      exact ⟨_, .handler Standing.noConfusion misnamed, rfl⟩
    · rintro ⟨fault, broken, rfl⟩
      cases broken with
      | strayItem other | strayStatement other => cases other
      | handler _ misnamed => exact ⟨misnamed, rfl⟩
  | table pos name fields =>
    refine reports_singleton fun diagnostic => ?_
    rw [checkLive, checkTableName_eq_error_iff]
    constructor
    · rintro ⟨misnamed, rfl⟩
      exact ⟨_, .table misnamed, rfl⟩
    · rintro ⟨fault, broken, rfl⟩
      cases broken with
      | strayItem other | strayStatement other => cases other
      | table misnamed => exact ⟨misnamed, rfl⟩
  | block pos kind body =>
    refine reports_singleton fun diagnostic => ?_
    constructor
    · intro failed
      cases kind with
      | item =>
        cases failed
        exact ⟨_, .strayItem rfl, rfl⟩
      | _ => cases failed
    · rintro ⟨fault, broken, rfl⟩
      cases broken with
      | strayItem item =>
        cases kind with
        | item => rfl
        | _ => cases item
      | strayStatement statement => cases statement
  | statement pos step =>
    refine reports_singleton fun diagnostic => ?_
    constructor
    · intro failed
      cases failed
      exact ⟨_, .strayStatement rfl, rfl⟩
    · rintro ⟨fault, broken, rfl⟩
      cases broken with
      | strayItem item => cases item
      | strayStatement => rfl
  | app | text | input | raw =>
    refine reports_singleton fun diagnostic => ?_
    constructor
    · intro failed
      cases failed
    · rintro ⟨fault, broken, rfl⟩
      cases broken with
      | strayItem other | strayStatement other => cases other

theorem reports_walk (nodes : List Node) :
    Reports Visit.Offends (forM (liveNodes nodes) checkLive) (visits nodes) :=
  reports_forM reports_checkLive (liveNodes nodes)

end Walk

section Declarations

/-- Each item with those before it. -/
def withEarlier {α : Type} (earlier : List α) : List α → List (List α × α)
  | [] => []
  | item :: rest => (earlier, item) :: withEarlier (earlier ++ [item]) rest

/-- What the draft is checked for: a table or a function after those declared earlier, a field after
those of the same table, and a reference to one of the tables. -/
inductive NameCheck where
  | table (earlier : List TableDeclaration) (table : TableDeclaration)
  | field (table : TableDeclaration) (earlier : List Field) (field : Field)
  | function (earlier : List Site) (function : Site)
  | reference (tables : List TableDeclaration) (reference : Site)

/-- What is wrong with a name in the draft, reported where the name stands. -/
inductive NameCheck.Offends : NameCheck → Diagnostic → Prop
  | repeatedTable {earlier : List TableDeclaration} {table other : TableDeclaration}
      (before : other ∈ earlier) (same : other.name = table.name) :
      Offends (.table earlier table) (.generation table.pos (.repeatedTable table.name))
  | reservedField {table : TableDeclaration} {earlier : List Field} {field : Field}
      (key : field.name = "id") :
      Offends (.field table earlier field)
        (.generation field.pos (.reservedField field.name table.name))
  | repeatedField {table : TableDeclaration} {earlier : List Field} {field other : Field}
      (free : field.name ≠ "id") (before : other ∈ earlier) (same : other.name = field.name) :
      Offends (.field table earlier field)
        (.generation field.pos (.repeatedField field.name table.name))
  | repeatedFunction {earlier : List Site} {function other : Site}
      (before : other ∈ earlier) (same : other.name = function.name) :
      Offends (.function earlier function)
        (.generation function.pos (.repeatedFunction function.name))
  | unknownTable {tables : List TableDeclaration} {reference : Site}
      (undeclared : ∀ table ∈ tables, table.name ≠ reference.name) :
      Offends (.reference tables reference)
        (.generation reference.pos (.unknownTable reference.name))

def fieldChecks (table : TableDeclaration) : List NameCheck :=
  (withEarlier [] table.fields).map fun (earlier, field) => .field table earlier field

/-- The tables in order, each before its fields. -/
def tableChecks (tables : List TableDeclaration) : List NameCheck :=
  (withEarlier [] tables).flatMap fun (earlier, table) =>
    .table earlier table :: fieldChecks table

def functionChecks (functions : List Site) : List NameCheck :=
  (withEarlier [] functions).map fun (earlier, function) => .function earlier function

/-- All names of a program that are checked for their declarations, in order. -/
def nameChecks (nodes : List Node) : List NameCheck :=
  let tables := (liveNodes nodes).filterMap Node.declaration?
  tableChecks tables ++ functionChecks ((liveNodes nodes).filterMap Node.definition?) ++
    ((liveNodes nodes).flatMap Node.references).map (.reference tables)

/-- The names that a scan has seen, the last one first. -/
def seenNames {α : Type} (name : α → String) (earlier : List α) : List String :=
  (earlier.map name).reverse

theorem seenNames_append {α : Type} (name : α → String) (earlier : List α) (item : α) :
    name item :: seenNames name earlier = seenNames name (earlier ++ [item]) := by
  simp [seenNames]

theorem contains_seenNames {α : Type} (name : α → String) (earlier : List α) (other : String) :
    (seenNames name earlier).contains other = true ↔ ∃ item ∈ earlier, name item = other := by
  simp [seenNames]

theorem reports_checkFields (table : TableDeclaration) (earlier fields : List Field) :
    Reports NameCheck.Offends (checkFields table.name (seenNames Field.name earlier) fields)
      ((withEarlier earlier fields).map fun (earlier, field) => .field table earlier field) := by
  induction fields generalizing earlier with
  | nil => exact reports_nil
  | cons field rest ih =>
    refine Reports.cons ?_ ?_ (ih (earlier ++ [field]))
    · intro diagnostic offends
      cases offends with
      | reservedField key => exact if_pos key
      | repeatedField free before same =>
        have seen := (contains_seenNames Field.name earlier field.name).mpr ⟨_, before, same⟩
        exact (if_neg free).trans (if_pos seen)
    · intro harmless
      have free : field.name ≠ Schema.keyColumn := fun key => harmless _ (.reservedField key)
      have unseen : ¬ (seenNames Field.name earlier).contains field.name = true := by
        rw [contains_seenNames]
        rintro ⟨other, before, same⟩
        exact harmless _ (.repeatedField free before same)
      rw [checkFields, if_neg free, if_neg unseen, seenNames_append]

theorem reports_checkTables (earlier tables : List TableDeclaration) :
    Reports NameCheck.Offends (checkTables (seenNames TableDeclaration.name earlier) tables)
      ((withEarlier earlier tables).flatMap fun (earlier, table) =>
        .table earlier table :: fieldChecks table) := by
  induction tables generalizing earlier with
  | nil => exact reports_nil
  | cons table rest ih =>
    have later := (reports_checkFields table [] table.fields).seq (ih (earlier ++ [table]))
    refine Reports.cons ?_ ?_ later
    · intro diagnostic offends
      cases offends with
      | repeatedTable before same =>
        exact if_pos ((contains_seenNames TableDeclaration.name _ _).mpr ⟨_, before, same⟩)
    · intro harmless
      have unseen : ¬ (seenNames TableDeclaration.name earlier).contains table.name = true := by
        rw [contains_seenNames]
        rintro ⟨other, before, same⟩
        exact harmless _ (.repeatedTable before same)
      rw [checkTables, if_neg unseen, seenNames_append]
      rfl

theorem reports_checkFunctions (earlier functions : List Site) :
    Reports NameCheck.Offends (checkFunctions (seenNames Site.name earlier) functions)
      ((withEarlier earlier functions).map fun (earlier, function) =>
        .function earlier function) := by
  induction functions generalizing earlier with
  | nil => exact reports_nil
  | cons function rest ih =>
    refine Reports.cons ?_ ?_ (ih (earlier ++ [function]))
    · intro diagnostic offends
      cases offends with
      | repeatedFunction before same =>
        exact if_pos ((contains_seenNames Site.name _ _).mpr ⟨_, before, same⟩)
    · intro harmless
      have unseen : ¬ (seenNames Site.name earlier).contains function.name = true := by
        rw [contains_seenNames]
        rintro ⟨other, before, same⟩
        exact harmless _ (.repeatedFunction before same)
      rw [checkFunctions, if_neg unseen, seenNames_append]

theorem reports_checkReferences (tables : List TableDeclaration) (references : List Site) :
    Reports NameCheck.Offends (checkReferences (tables.map TableDeclaration.name) references)
      (references.map (.reference tables)) := by
  induction references with
  | nil => exact reports_nil
  | cons reference rest ih =>
    have declared : (tables.map TableDeclaration.name).contains reference.name = true ↔
        ∃ table ∈ tables, table.name = reference.name := by
      simp
    refine Reports.cons ?_ ?_ ih
    · intro diagnostic offends
      cases offends with
      | unknownTable undeclared =>
        refine if_neg fun found => ?_
        obtain ⟨table, member, same⟩ := declared.mp found
        exact undeclared table member same
    · intro harmless
      refine if_pos (declared.mpr ?_)
      by_contra undeclared
      exact harmless _ (.unknownTable fun table member same => undeclared ⟨table, member, same⟩)

theorem reports_check (placeholder : String) (nodes : List Node) :
    Reports NameCheck.Offends (collected placeholder nodes).check (nameChecks nodes) := by
  have tables := reports_checkTables [] ((liveNodes nodes).filterMap Node.declaration?)
  have functions := reports_checkFunctions [] ((liveNodes nodes).filterMap Node.definition?)
  have references := reports_checkReferences ((liveNodes nodes).filterMap Node.declaration?)
    ((liveNodes nodes).flatMap Node.references)
  rw [Draft.check, collected, Draft.notes_tables, Draft.notes_functions, Draft.notes_references,
    nameChecks, List.append_assoc]
  exact tables.seq (functions.seq references)

end Declarations

/-- A program is refused for the first fault that the walk meets; only if there is none, and only if
the declarations are checked, for the first fault of a declaration. What is not refused has the
same page either way. -/
theorem generate_reports_first_fault (settings : Settings) (nodes : List Node) :
    let unchecked := generate { settings with checkTables := false } nodes
    let checked := generate { settings with checkTables := true } nodes
    (∀ diagnostic, unchecked = .error diagnostic ↔
      FirstFault Visit.Offends (visits nodes) diagnostic) ∧
    (∀ diagnostic, unchecked = .error diagnostic → checked = .error diagnostic) ∧
    (∀ page, unchecked = .ok page → ∀ diagnostic, checked = .error diagnostic ↔
      FirstFault NameCheck.Offends (nameChecks nodes) diagnostic) ∧
    ∀ page other, unchecked = .ok page → checked = .ok other → other = page := by
  intro unchecked checked
  have walked := reports_walk nodes
  have declared := reports_check settings.updatePlaceholder nodes
  have first : unchecked = (forM (liveNodes nodes) checkLive >>= fun _ =>
      .ok ((collected settings.updatePlaceholder nodes).page settings (Node.markupAll 0 nodes))) :=
    generate_eq _ nodes
  have both : checked = (forM (liveNodes nodes) checkLive >>= fun _ =>
      (collected settings.updatePlaceholder nodes).check >>= fun _ =>
      .ok ((collected settings.updatePlaceholder nodes).page settings (Node.markupAll 0 nodes))) :=
    generate_eq _ nodes
  refine ⟨?_, ?_, ?_, ?_⟩
  · intro diagnostic
    rw [first, seq_eq_error_iff, walked diagnostic]
    simp
  · intro diagnostic failed
    rw [first, seq_eq_error_iff] at failed
    rw [both, seq_eq_error_iff]
    exact .inl (failed.resolve_right (by simp))
  · intro page success diagnostic
    have passed := ((seq_eq_ok_iff ..).mp (first.symm.trans success)).1
    rw [both, passed, ← declared diagnostic, seq_eq_error_iff, seq_eq_error_iff]
    simp
  · intro page other success accepted
    have plain := ((seq_eq_ok_iff ..).mp (first.symm.trans success)).2
    have same := ((seq_eq_ok_iff ..).mp ((seq_eq_ok_iff ..).mp (both.symm.trans accepted)).2).2
    exact Except.ok.inj (same.symm.trans plain)

/-- A reserved field, a table declared again and, last of all, a function with a wrong name. -/
def contestedProgram : List Node :=
  [.block ⟨1, 1⟩ .db
      [.table ⟨1, 6⟩ "notes" [⟨"body", ⟨1, 18⟩⟩, ⟨"id", ⟨1, 23⟩⟩], .table ⟨2, 6⟩ "notes" []],
    .function ⟨3, 1⟩ "go-on" []]

theorem generate_contestedProgram :
    let named : Diagnostic := .generation ⟨3, 1⟩ (.invalidName .function "go-on")
    let reserved : Diagnostic := .generation ⟨1, 23⟩ (.reservedField "id" "notes")
    FirstFault Visit.Offends (visits contestedProgram) named ∧
      generate {} contestedProgram = .error named ∧
      FirstFault NameCheck.Offends (nameChecks (contestedProgram.take 1)) reserved := by
  intro named reserved
  obtain ⟨walked, kept, -, -⟩ := generate_reports_first_fault {} contestedProgram
  obtain ⟨-, -, declared, -⟩ := generate_reports_first_fault {} (contestedProgram.take 1)
  have refused : generate { checkTables := false } contestedProgram = .error named := rfl
  obtain ⟨page, success⟩ : ∃ page,
      generate { checkTables := false } (contestedProgram.take 1) = .ok page := ⟨_, rfl⟩
  exact ⟨(walked named).mp refused, kept named refused, (declared page success reserved).mp rfl⟩

end Pagewright
