import Pagewright.Proofs.LineStarts
import Pagewright.Proofs.Placeholders

set_option autoImplicit false

namespace Pagewright

open Text Markup

/-- The table is declared once, with columns, and one function shows it. -/
structure Page.Shows (page : Page) (table : String) : Prop where
  declared : ∃ schema slots, schema.fields ≠ [] ∧
    page.bootstrap.tables.filter (fun other => other.name = table) = [schema] ∧
    page.behavior.renderFunctions.filter (fun function => function.table.name = table) =
      [⟨schema, slots⟩]
  opened : (linesOf page.behavior.render).count ("function render_" ++ table ++ "()\x7b") = 1

/-- No handler opens like a render function: the one takes an argument, the other none. -/
theorem Handler.opening_ne {handler : Handler} (name : Identifier handler.name) {table : String}
    (identifier : Identifier table) :
    handler.opening ≠ "function " ++ renderFunctionName table ++ "()\x7b" := by
  intro same
  simp only [opening, String.append_assoc, String.append_right_inj] at same
  have noName : '(' ∉ (renderFunctionName table).toList := by
    rw [renderFunctionName, String.toList_append, List.mem_append, not_or]
    exact ⟨by decide, identifier.not_mem (by decide)⟩
  obtain ⟨-, rest⟩ := append_inj_of_mark (name.not_mem (by decide)) noName (heads_ofList rfl)
    (heads_ofList rfl) same
  revert rest
  decide

theorem count_opening_eq_one {behavior : Behavior} (named : behavior.WellNamed)
    (tables : (behavior.renderFunctions.map fun function => function.table.name).Nodup)
    {function : RenderFunction} (member : function ∈ behavior.renderFunctions) :
    (linesOf behavior.render).count function.opening = 1 := by
  have handlers : (behavior.handlers.map Handler.opening).count function.opening = 0 := by
    rw [List.count_eq_zero]
    intro written
    obtain ⟨handler, defined, same⟩ := List.mem_map.mp written
    exact Handler.opening_ne (named.handlers handler defined) (named.tables function member) same
  have functions : (behavior.renderFunctions.map RenderFunction.opening).count
      function.opening = 1 := by
    rw [List.count, List.countP_map]
    apply countP_eq_one_of_key tables member
    · exact beq_self_eq_true _
    · intro other _ same
      have openings : other.opening = function.opening := beq_iff_eq.mp same
      rw [other.opening_eq, function.opening_eq, String.append_left_inj,
        String.append_right_inj] at openings
      exact openings
  -- All lines equal to the opening are among those that open functions.
  rw [Behavior.render, linesOf_scriptText named.inline_lines,
    ← List.count_filter (RenderFunction.begins_opening function), Behavior.filter_function_lines,
    List.count_append, functions, handlers]

theorem Schema.declared_fields_ne_nil (name : String) (fields : List String) :
    (Schema.declared name fields).fields ≠ [] := by
  cases fields <;> exact List.cons_ne_nil _ _

/-- A program whose names are well declared shows each table that it declares. -/
theorem livePage_shows {settings : Settings} {nodes : List Node} (declared : WellDeclared nodes)
    (named : (livePage settings nodes).behavior.WellNamed) {table : String}
    (known : table ∈ declaredTables nodes) : (livePage settings nodes).Shows table := by
  have schemaNames := declared.tables
  rw [declaredTables, ← schemas_names] at schemaNames known
  have functionNames := declared.tables
  rw [← livePage_tableNames settings] at functionNames
  obtain ⟨schema, member, rfl⟩ := List.mem_map.mp known
  have function : (⟨schema, slotsOf schema ((liveNodes nodes).filterMap Node.list?)⟩ :
      RenderFunction) ∈ (livePage settings nodes).behavior.renderFunctions :=
    List.mem_map.mpr ⟨schema, member, rfl⟩
  refine ⟨⟨schema, slotsOf schema ((liveNodes nodes).filterMap Node.list?), ?_, ?_, ?_⟩, ?_⟩
  · obtain ⟨pos, name, fields, -, rfl⟩ := (mem_schema?_iff _ _).mp member
    exact Schema.declared_fields_ne_nil _ _
  · apply filter_eq_singleton_of_key schemaNames member (decide_eq_true rfl)
    intro other _ same
    exact of_decide_eq_true same
  · apply filter_eq_singleton_of_key functionNames function (decide_eq_true rfl)
    intro other _ same
    exact of_decide_eq_true same
  · have opened := count_opening_eq_one named functionNames function
    rw [RenderFunction.opening_eq] at opened
    exact opened

/-- An element with the attribute of a list is the placeholder of a list. -/
theorem list_of_attribute {nodes : List Node} {context : Context}
    (nested : Node.NestedAll context nodes) {tag : String} {attributes : List (String × String)}
    {children : List Markup}
    (element : .element tag attributes children ∈ elementsAll (Node.markupAll 0 nodes))
    {table : String} (carried : ("data-list", table) ∈ attributes) :
    ∃ pos body, .list pos table body ∈ liveNodes nodes := by
  have marked : isPlaceholder (.element tag attributes children) = true := by
    have found : (attributes.lookup "data-list").isSome = true := by
      rw [Option.isSome_iff_ne_none, ne_eq, List.lookup_eq_none_iff]
      intro absent
      exact bne_iff_ne.mp (absent _ carried) rfl
    rw [isPlaceholder, attributeValue?, found]
    rfl
  have listed : .element tag attributes children ∈ placeholders (Node.markupAll 0 nodes) :=
    List.mem_filter.mpr ⟨element, marked⟩
  rw [Node.placeholders_markupAll 0 nodes nested] at listed
  obtain ⟨⟨⟨source, body⟩, index⟩, member, same⟩ := List.mem_map.mp listed
  have inList := (mem_list?_iff _ _ _).mp (List.fst_mem_of_mem_zipIdx member)
  cases same
  have sources : table = source := by simpa using carried
  rw [sources]
  obtain ⟨pos, live⟩ := inList
  exact ⟨pos, body, live⟩

/-- The statements of a line. -/
def statementsOf (line : String) : List String := (line.toList.splitOn ';').map String.ofList

namespace Bootstrap

/-- The call that shows a table at the start. -/
def startCall (table : String) : String := renderFunctionName table ++ "()"

theorem toList_calls (names : List String) :
    (String.join (names.map renderLine) ++ "\x7d);").toList =
      [';'].intercalate
        (names.map (fun table => (startCall table).toList) ++ [['\x7d', ')'], []]) := by
  induction names with
  | nil => rfl
  | cons name names ih =>
    have call : (renderLine name).toList = (startCall name).toList ++ [';'] := by
      simp [renderLine, startCall]
    rw [List.map_cons, String.join_cons, String.append_assoc, String.toList_append, ih, call,
      List.map_cons, List.cons_append]
    cases names <;> simp [List.intercalate]

theorem semicolon_not_mem_startCall {table : String} (identifier : Identifier table) :
    ';' ∉ (startCall table).toList := by
  simp only [startCall, renderFunctionName, String.toList_append, List.mem_append, not_or]
  exact ⟨⟨by decide, identifier.not_mem (by decide)⟩, by decide⟩

/-- How the line that runs at the start begins. -/
def startFront : String :=
  "window.addEventListener(\"DOMContentLoaded\",async()=>\x7bawait initDB()"

/-- The start opens the store, shows each table in turn, and does nothing else. -/
theorem statementsOf_startLine {bootstrap : Bootstrap}
    (tables : ∀ table ∈ bootstrap.tables, Identifier table.name) :
    statementsOf bootstrap.startLine =
      startFront :: (bootstrap.tables.map Schema.name).map startCall ++ ["\x7d)", ""] := by
  have front : startFront ++ ";" =
      "window.addEventListener(\"DOMContentLoaded\",async()=>\x7bawait initDB();" := by
    delta startFront
    exact ofList_append_ofList rfl
  have calls := toList_calls (bootstrap.tables.map Schema.name)
  have chars : bootstrap.startLine.toList = [';'].intercalate
      (startFront.toList :: ((bootstrap.tables.map Schema.name).map
        (fun table => (startCall table).toList) ++ [['\x7d', ')'], []])) := by
    delta startLine
    rw [List.map_map] at calls
    rw [← front, String.append_assoc, String.toList_append, String.toList_append]
    change startFront.toList ++ [';'] ++ (String.join (bootstrap.tables.map
      (renderLine ∘ Schema.name)) ++ "\x7d);").toList = _
    rw [calls]
    cases bootstrap.tables <;> simp [List.intercalate]
  have apart : ∀ piece ∈ startFront.toList :: ((bootstrap.tables.map Schema.name).map
      (fun table => (startCall table).toList) ++ [['\x7d', ')'], []]), ';' ∉ piece := by
    rw [List.forall_mem_cons, List.forall_mem_append]
    refine ⟨?_, ?_, by decide⟩
    · delta startFront
      exact not_mem_ofList rfl
    · intro piece member
      rw [List.map_map] at member
      obtain ⟨table, declared, rfl⟩ := List.mem_map.mp member
      exact semicolon_not_mem_startCall (tables table declared)
  rw [statementsOf, chars, List.splitOn_intercalate ';' apart (List.cons_ne_nil _ _)]
  simp [Function.comp_def]

theorem mem_statementsOf_startLine {bootstrap : Bootstrap}
    (tables : ∀ table ∈ bootstrap.tables, Identifier table.name) (table : String) :
    startCall table ∈ statementsOf bootstrap.startLine ↔
      table ∈ bootstrap.tables.map Schema.name := by
  have call : Heads 'r' (startCall table) :=
    ((heads_ofList rfl : Heads 'r' "render_").append _).append _
  have notFront : startCall table ≠ startFront := by
    delta startFront
    exact call.ne (heads_ofList rfl) (by decide)
  have notEnd : startCall table ≠ "\x7d)" := call.ne (heads_ofList rfl) (by decide)
  have notEmpty : startCall table ≠ "" := by
    intro empty
    rw [empty] at call
    cases call
  have same : ∀ other, startCall other = startCall table ↔ other = table := by
    intro other
    simp only [startCall, renderFunctionName, String.append_left_inj, String.append_right_inj]
  rw [statementsOf_startLine tables]
  simp only [List.cons_append, List.mem_cons, List.mem_append, notFront, notEnd, notEmpty,
    List.not_mem_nil, or_false, false_or, List.mem_map, same, exists_eq_right]

end Bootstrap

/-- No reference dangles. With checked tables, every table that a handler or a placeholder names is
declared once, with columns, and shown by one function; and so is every table that a line of the
behavior or the start of the page shows. -/
theorem compile_references {settings : Settings} {source : String} {page : Page}
    (checked : settings.checkTables = true) (success : compile settings source = .ok page) :
    (∀ handler ∈ page.behavior.handlers, ∀ effect ∈ handler.effects, page.Shows effect.table) ∧
    (∀ tag attributes children,
      .element tag attributes children ∈ Markup.elementsAll page.markup →
        ∀ table, ("data-list", table) ∈ attributes → page.Shows table) ∧
    (∀ table, "render_" ++ table ++ "();" ∈ linesOf page.behavior.render → page.Shows table) ∧
    ∃ start, (linesOf page.bootstrap.render).filter (begins "window.addEventListener(") = [start] ∧
      (∀ table, "render_" ++ table ++ "()" ∈ statementsOf start ↔
        table ∈ page.bootstrap.tables.map Schema.name) ∧
      ∀ table, "render_" ++ table ++ "()" ∈ statementsOf start → page.Shows table := by
  obtain ⟨nodes, parsed, generated⟩ := (compile_eq_ok_iff settings source page).mp success
  have named := generate_wellNamed generated
  have tables := generate_tables_identifiers generated
  obtain ⟨-, asked, rfl⟩ := (generate_eq_ok_iff_livePage settings nodes page).mp generated
  have declared := asked checked
  have shows : ∀ table ∈ declaredTables nodes, (livePage settings nodes).Shows table :=
    fun table known => livePage_shows declared named known
  have effects : ∀ handler ∈ (livePage settings nodes).behavior.handlers,
      ∀ effect ∈ handler.effects, (livePage settings nodes).Shows effect.table := by
    intro handler member effect active
    obtain ⟨pos, name, body, live, rfl⟩ := (mem_handler?_iff _ _ _).mp member
    obtain ⟨stepPos, step, inside, used⟩ :=
      (mem_effect?_iff _ body effect.table).mp ⟨effect, active, rfl⟩
    exact shows _ (declared.statementTable pos name body live stepPos step _ inside used)
  refine ⟨effects, ?_, ?_, ?_⟩
  · intro tag attributes children element table carried
    obtain ⟨pos, body, live⟩ := list_of_attribute (parse_nestedAll parsed) element carried
    exact shows table (declared.listTable pos table body live)
  · intro table written
    rw [Behavior.render, linesOf_scriptText named.inline_lines] at written
    obtain ⟨handler, member, effect, active, same⟩ :=
      Behavior.renderLine_of_begins written (begins_renderLine table)
    have tables : table = effect.table := by
      rw [renderLine, renderFunctionName, String.append_left_inj, String.append_right_inj] at same
      exact same
    exact tables ▸ effects handler member effect active
  · have calls := Bootstrap.mem_statementsOf_startLine tables
    refine ⟨(livePage settings nodes).bootstrap.startLine, ?_, calls, ?_⟩
    · rw [Bootstrap.render, linesOf_scriptText (Bootstrap.inline_lines tables),
        Bootstrap.filter_start_lines]
    · intro table called
      have known := (calls table).mp called
      exact shows table (by rw [declaredTables, ← schemas_names]; exact known)

/-- A function and a list before the table that they name, and a table that nothing names. -/
def referenceProgram : String :=
  "fn go \x7b delete t \x7d list t \x7b \x7d table t \x7b \x7d table u \x7b \x7d"

theorem compile_referenceProgram : ∃ page,
    compile {} referenceProgram = .ok page ∧
      page.behavior.handlers = [⟨"go", [.delete "t"]⟩] ∧ page.Shows "t" ∧
      page.bootstrap.tables = [⟨"t", ["text"]⟩, ⟨"u", ["text"]⟩] ∧ page.Shows "u" := by
  obtain ⟨page, success, parts⟩ := exists_page_of_any (by decide +kernel :
    (compile {} referenceProgram).toOption.any (fun page =>
      page.behavior.handlers == [⟨"go", [.delete "t"]⟩] &&
        page.bootstrap.tables == [⟨"t", ["text"]⟩, ⟨"u", ["text"]⟩]) = true)
  obtain ⟨handlers, tables⟩ := Bool.and_eq_true_iff.mp parts
  replace handlers := beq_iff_eq.mp handlers
  replace tables := beq_iff_eq.mp tables
  obtain ⟨effects, -, -, start, -, calls, started⟩ := compile_references rfl success
  refine ⟨page, success, handlers, ?_, tables, started "u" ((calls "u").mpr ?_)⟩
  · exact effects ⟨"go", [.delete "t"]⟩ (by rw [handlers]; exact .head _) (.delete "t") (.head _)
  · rw [tables]
    decide

end Pagewright
