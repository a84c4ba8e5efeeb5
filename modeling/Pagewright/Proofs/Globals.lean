import Mathlib.Data.List.Nodup
import Pagewright.Proofs.Registry

set_option autoImplicit false

namespace Pagewright

open Text

/-- The names that the scripts of a page take. -/
def Page.globals (page : Page) : List String :=
  Bootstrap.runtimeNames ++
    page.bootstrap.tables.map (fun table => renderFunctionName table.name) ++
    page.behavior.handlers.map Handler.name

/-- The name that a line gives to the function that it opens. -/
def openedName (line : String) : String :=
  String.ofList ((line.toList.drop "function ".length).takeWhile continuesIdentifier)

/-- The names of the functions that the text of the scripts opens, line by line. -/
def Page.openedNames (page : Page) : List String :=
  ((linesOf page.bootstrap.render ++ linesOf page.behavior.render).filter
    (begins "function ")).map openedName

theorem renderFunctionName_injective : Function.Injective renderFunctionName := by
  intro table other same
  rwa [renderFunctionName, renderFunctionName, String.append_right_inj] at same

theorem starts_renderFunctionName (table : String) :
    "render_".toList <+: (renderFunctionName table).toList := by
  rw [renderFunctionName, String.toList_append]
  exact List.prefix_append ..

theorem identifier_renderFunctionName {table : String} (identifier : Identifier table) :
    Identifier (renderFunctionName table) := by
  refine ⟨'r', "ender_".toList ++ table.toList, String.toList_append .., ?_, ?_⟩
  · rw [← startsIdentifier_iff]
    decide
  · intro c member
    rw [← continuesIdentifier_iff]
    rcases List.mem_append.mp member with fixed | own
    · have all : "ender_".toList.all continuesIdentifier = true := by decide
      exact List.all_eq_true.mp all c fixed
    · exact identifier.continues own

/-- The start of the names of render functions keeps them apart from all fixed names. -/
theorem not_starts_render : ∀ name ∈ Bootstrap.runtimeNames ++ reservedWords,
    ¬ "render_".toList <+: name.toList := by
  decide +kernel

/-- A table may be named by a reserved word; the function that shows it is not. -/
theorem callable_renderFunctionName {table : String} (identifier : Identifier table) :
    Callable (renderFunctionName table) := by
  refine ⟨identifier_renderFunctionName identifier, ?_⟩
  intro reserved
  exact not_starts_render _ (List.mem_append_right _ reserved) (starts_renderFunctionName table)

theorem callable_runtimeNames : ∀ name ∈ Bootstrap.runtimeNames, Callable name := by
  intro name member
  rw [← isCallable_iff]
  have all : Bootstrap.runtimeNames.all isCallable = true := by decide +kernel
  exact List.all_eq_true.mp all name member

/-- The functions of a page have names that the scripts can take. -/
theorem generate_handlers_callable {settings : Settings} {nodes : List Node} {page : Page}
    (success : generate settings nodes = .ok page) :
    ∀ handler ∈ page.behavior.handlers, Callable handler.name ∧
      handler.name ∉ Bootstrap.runtimeNames ∧ ¬ "render_".toList <+: handler.name.toList := by
  obtain ⟨placed, -, rfl⟩ := (generate_eq_ok_iff_livePage settings nodes page).mp success
  intro handler member
  obtain ⟨pos, name, body, live, rfl⟩ := (mem_handler?_iff _ _ _).mp member
  have wellPlaced : (Node.function pos name body).WellPlaced := placed _ live
  exact wellPlaced.1

theorem generate_globals_callable {settings : Settings} {nodes : List Node} {page : Page}
    (success : generate settings nodes = .ok page) : ∀ name ∈ page.globals, Callable name := by
  rw [Page.globals, List.forall_mem_append, List.forall_mem_append]
  refine ⟨⟨callable_runtimeNames, ?_⟩, ?_⟩
  · intro name member
    obtain ⟨table, declared, rfl⟩ := List.mem_map.mp member
    exact callable_renderFunctionName (generate_tables_identifiers success table declared)
  · intro name member
    obtain ⟨handler, defined, rfl⟩ := List.mem_map.mp member
    exact (generate_handlers_callable success handler defined).1

/-- Four rules keep the names apart: tables and functions are declared once, and no function takes a
name of the runtime or one that begins like a render function. -/
theorem generate_globals_nodup {settings : Settings} {nodes : List Node} {page : Page}
    (checked : settings.checkTables = true) (success : generate settings nodes = .ok page) :
    page.globals.Nodup := by
  have named := generate_handlers_callable success
  obtain ⟨-, declared, rfl⟩ := (generate_eq_ok_iff_livePage settings nodes page).mp success
  have tables : ((livePage settings nodes).bootstrap.tables.map fun table =>
      renderFunctionName table.name).Nodup := by
    have names := (declared checked).tables
    rw [declaredTables, ← schemas_names] at names
    have renders := names.map renderFunctionName_injective
    rwa [List.map_map] at renders
  have handlers : ((livePage settings nodes).behavior.handlers.map Handler.name).Nodup := by
    have names := (declared checked).functions
    rwa [← handlers_names settings.updatePlaceholder] at names
  have runtime : Bootstrap.runtimeNames.Nodup := by decide
  rw [Page.globals, List.nodup_append, List.nodup_append]
  refine ⟨⟨runtime, tables, ?_⟩, handlers, ?_⟩
  · rintro name fixed _ shows rfl
    obtain ⟨table, -, rfl⟩ := List.mem_map.mp shows
    exact not_starts_render _ (List.mem_append_left _ fixed) (starts_renderFunctionName _)
  · rintro name taken _ defined rfl
    obtain ⟨handler, member, rfl⟩ := List.mem_map.mp defined
    obtain ⟨-, noRuntime, noRender⟩ := named handler member
    rcases List.mem_append.mp taken with fixed | shows
    · exact noRuntime fixed
    · obtain ⟨table, -, same⟩ := List.mem_map.mp shows
      exact noRender (same ▸ starts_renderFunctionName table.name)

/-- The name of a function ends where its arguments begin. -/
theorem openedName_eq {name arguments : String}
    (own : ∀ c ∈ name.toList, continuesIdentifier c = true) (opens : Heads '(' arguments) :
    openedName ("function " ++ name ++ arguments) = name := by
  obtain ⟨rest, spelling⟩ := List.head?_eq_some_iff.mp opens
  have behind : ("function " ++ name ++ arguments).toList.drop "function ".length =
      name.toList ++ '(' :: rest := by
    rw [String.append_assoc, String.toList_append, String.toList_append, spelling]
    rfl
  have stop : ('(' :: rest).takeWhile continuesIdentifier = [] := rfl
  rw [openedName, behind, List.takeWhile_append_of_pos own, stop, List.append_nil,
    String.ofList_toList]

/-- For fixed texts, of which only the start is read. -/
theorem openedName_of_begins {name : List Char} {line : String}
    (own : name.all continuesIdentifier = true)
    (first : begins (String.ofList ("function ".toList ++ (name ++ ['(']))) line = true) :
    openedName line = String.ofList name := by
  obtain ⟨rest, rfl⟩ := (begins_iff ..).mp first
  rw [String.ofList_append, String.ofList_append, String.ofList_toList, String.append_assoc,
    String.append_assoc, ← String.append_assoc]
  refine openedName_eq ?_ (Heads.append (heads_ofList rfl) rest)
  rw [String.toList_ofList]
  exact List.all_eq_true.mp own

theorem RenderFunction.openedName_opening {function : RenderFunction}
    (identifier : Identifier function.table.name) :
    openedName function.opening = renderFunctionName function.table.name :=
  openedName_eq (fun _ => (identifier_renderFunctionName identifier).continues) (heads_ofList rfl)

theorem Handler.openedName_opening {handler : Handler} (identifier : Identifier handler.name) :
    openedName handler.opening = handler.name :=
  openedName_eq (fun _ => identifier.continues) (heads_ofList rfl)

theorem Behavior.WellNamed.openedName_lines {behavior : Behavior} (named : behavior.WellNamed) :
    (behavior.lines.filter (begins "function ")).map openedName =
      behavior.renderFunctions.map (fun function => renderFunctionName function.table.name) ++
        behavior.handlers.map Handler.name := by
  have functions : behavior.renderFunctions.map (openedName ∘ RenderFunction.opening) =
      behavior.renderFunctions.map fun function => renderFunctionName function.table.name := by
    apply List.map_congr_left
    intro function member
    exact RenderFunction.openedName_opening (named.tables function member)
  have handlers : behavior.handlers.map (openedName ∘ Handler.opening) =
      behavior.handlers.map Handler.name := by
    apply List.map_congr_left
    intro handler member
    exact Handler.openedName_opening (named.handlers handler member)
  rw [filter_function_lines, List.map_append, List.map_map, List.map_map, functions, handlers]

namespace Bootstrap

theorem openedName_runtimeLines :
    runtimeLines.map openedName =
      ["requireDB", "quoteIdent", "queryRows", "insert", "deleteById", "updateById"] := by
  delta runtimeLines
  simp only [List.map_cons, List.map_nil, List.cons.injEq, and_true]
  exact ⟨openedName_of_begins rfl (begins_ofList rfl),
    openedName_of_begins rfl (begins_ofList rfl),
    openedName_of_begins rfl (begins_append (begins_append (begins_ofList rfl) _) _),
    openedName_of_begins rfl (begins_append (begins_ofList rfl) _),
    openedName_of_begins rfl (begins_append (begins_ofList rfl) _),
    openedName_of_begins rfl (begins_append (begins_ofList rfl) _)⟩

theorem filter_function_lines (bootstrap : Bootstrap) :
    bootstrap.lines.filter (begins "function ") = runtimeLines := by
  have runtime : runtimeLines.filter (begins "function ") = runtimeLines := by
    rw [List.filter_eq_self]
    intro line member
    obtain ⟨start, among, first⟩ := beginsAmong_runtimeLines line member
    rwa [List.mem_singleton.mp among] at first
  have noInit : ¬ begins "function " initLine = true := by decide
  have noClosing : ¬ begins "function " "\x7d" = true := by decide
  have noStart : ¬ begins "function " bootstrap.startLine = true := by
    rw [bootstrap.beginsAmong_startLine.begins_eq_false (by decide)]
    exact Bool.false_ne_true
  rw [lines_eq_init, List.filter_append, List.filter_append, List.filter_cons_of_neg noInit,
    List.filter_cons_of_neg noClosing, List.filter_append, List.filter_cons_of_neg noStart, runtime,
    filter_begins_eq_nil (beginsAmong_headLines bootstrap) (by decide),
    filter_begins_eq_nil (beginsAmong_initLines bootstrap) (by decide), List.filter_nil,
    List.append_nil, List.nil_append, List.append_nil]

end Bootstrap

/-- The text of the scripts opens one function for each global name, the first four apart: these
stand for the store, its columns and how it is opened. -/
theorem compile_globals_opened {settings : Settings} {source : String} {page : Page}
    (success : compile settings source = .ok page) :
    page.globals = ["DB", "FIELDS", "initDB", "initSqlJs"] ++ page.openedNames := by
  obtain ⟨_, -, -, tables, -⟩ := compile_declarations success
  obtain ⟨_, -, generated⟩ := (compile_eq_ok_iff settings source page).mp success
  obtain ⟨bootstrapLines, behaviorLines⟩ := generate_linesOf generated
  have renders : page.behavior.renderFunctions.map
      (fun function => renderFunctionName function.table.name) =
        page.bootstrap.tables.map fun table => renderFunctionName table.name := by
    rw [← tables, List.map_map]
    rfl
  rw [Page.openedNames, bootstrapLines, behaviorLines, List.filter_append, List.map_append,
    Bootstrap.filter_function_lines, Bootstrap.openedName_runtimeLines,
    (generate_wellNamed generated).openedName_lines, renders, Page.globals, List.append_assoc]
  rfl

/-- No two global names of a page are equal. They are the names of the runtime, one for each table
of the program and one for each of its functions, and a script can define a function of each of
these names. The functions that the text of the scripts opens have these names. -/
theorem compile_globals {settings : Settings} {source : String} {page : Page}
    (checked : settings.checkTables = true) (success : compile settings source = .ok page) :
    ∃ nodes, parse settings.mode source = .ok nodes ∧
      page.globals = Bootstrap.runtimeNames ++
        ((Node.subtreeAll nodes).filterMap Node.tableName?).map (fun table => "render_" ++ table) ++
        (Node.subtreeAll nodes).filterMap Node.functionName? ∧
      page.globals.Nodup ∧
      (∀ name ∈ page.globals, Identifier name ∧ name ∉ reservedWords) ∧
      page.globals = ["DB", "FIELDS", "initDB", "initSqlJs"] ++ page.openedNames := by
  obtain ⟨nodes, parsed, tables, -, handlers⟩ := compile_declarations success
  obtain ⟨_, -, generated⟩ := (compile_eq_ok_iff settings source page).mp success
  refine ⟨nodes, parsed, ?_, generate_globals_nodup checked generated,
    generate_globals_callable generated, compile_globals_opened success⟩
  rw [Page.globals, tables, handlers, ← schemas_names, List.map_map]
  rfl

/-- Tables that have the names of a function of the runtime, of a reserved word and of a mark, and
functions whose names begin nearly like those of render functions. -/
def sharedProgram : String :=
  "table insert \x7b \x7d fn render \x7b delete delete \x7d db \x7b table delete \x7b \x7d " ++
    "table $ \x7b \x7d \x7d fn Render_insert \x7b \x7d"

theorem compile_sharedProgram : ∃ page, compile {} sharedProgram = .ok page ∧
    page.globals = Bootstrap.runtimeNames ++
      ["render_insert", "render_delete", "render_$", "render", "Render_insert"] ∧
    page.globals.Nodup ∧ ∀ name ∈ page.globals, Identifier name ∧ name ∉ reservedWords := by
  obtain ⟨page, success, names⟩ := exists_page_of_any (by decide +kernel :
    (compile {} sharedProgram).toOption.any (fun page => page.globals ==
      Bootstrap.runtimeNames ++
        ["render_insert", "render_delete", "render_$", "render", "Render_insert"]) = true)
  obtain ⟨_, -, -, distinct, callable, -⟩ := compile_globals rfl success
  exact ⟨page, success, beq_iff_eq.mp names, distinct, callable⟩

end Pagewright
