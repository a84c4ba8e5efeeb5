import Pagewright.Proofs.LineStarts
import Pagewright.Proofs.Nesting

set_option autoImplicit false

namespace Pagewright

open Text

theorem handlers_names (placeholder : String) (nodes : List Node) :
    (nodes.filterMap (Node.handler? placeholder)).map Handler.name =
      nodes.filterMap Node.functionName? := by
  rw [List.map_filterMap]
  apply List.filterMap_congr
  intro node _
  cases node <;> rfl

/-- What a page declares is what its program declares, anywhere in the tree. -/
theorem compile_declarations {settings : Settings} {source : String} {page : Page}
    (success : compile settings source = .ok page) :
    ∃ nodes, parse settings.mode source = .ok nodes ∧
      page.bootstrap.tables = (Node.subtreeAll nodes).filterMap Node.schema? ∧
      page.behavior.renderFunctions.map RenderFunction.table = page.bootstrap.tables ∧
      page.behavior.handlers.map Handler.name =
        (Node.subtreeAll nodes).filterMap Node.functionName? := by
  obtain ⟨nodes, parsed, generated⟩ := (compile_eq_ok_iff settings source page).mp success
  obtain ⟨placed, -, rfl⟩ := (generate_eq_ok_iff_livePage settings nodes page).mp generated
  have nested := parse_nestedAll parsed
  have schemas : (Node.subtreeAll nodes).filterMap Node.schema? =
      (liveNodes nodes).filterMap Node.schema? := by
    refine Node.filterMap_subtreeAll ?_ nodes nested placed
    intro node inner
    cases node with
    | table => cases inner
    | _ => rfl
  have functions : (Node.subtreeAll nodes).filterMap Node.functionName? =
      (liveNodes nodes).filterMap Node.functionName? := by
    refine Node.filterMap_subtreeAll ?_ nodes nested placed
    intro node inner
    cases node with
    | function => cases inner
    | _ => rfl
  refine ⟨nodes, parsed, schemas.symm, ?_, ?_⟩
  · simp only [livePage, List.map_map]
    exact List.map_id _
  · rw [functions]
    exact handlers_names _ _

/-- No string of a program breaks a line of the scripts. -/
theorem generate_linesOf {settings : Settings} {nodes : List Node} {page : Page}
    (success : generate settings nodes = .ok page) :
    linesOf page.bootstrap.render = page.bootstrap.lines ∧
      linesOf page.behavior.render = page.behavior.lines :=
  ⟨linesOf_scriptText (Bootstrap.inline_lines (generate_tables_identifiers success)),
    linesOf_scriptText (generate_wellNamed success).inline_lines⟩

namespace Bootstrap

/-- The line that opens the function in which the store is opened. -/
def initLine : String := "async function initDB()\x7b"

/-- The lines before that function. -/
def headLines (bootstrap : Bootstrap) : List String :=
  ["let DB=null;",
    "const FIELDS=\x7b" ++ ",".intercalate (bootstrap.tables.map fieldsEntry) ++ "\x7d;"]

/-- The lines that open the store. -/
def storeLines (store : Store) : List String :=
  ["const SQL=await initSqlJs(\x7blocateFile:f=>" ++ Literal.script store.wasmBase ++ "+f\x7d);",
    "DB=new SQL.Database();"]

/-- The lines inside that function. -/
def initLines (bootstrap : Bootstrap) : List String :=
  storeLines bootstrap.store ++ bootstrap.tables.map createLine

theorem lines_eq_init (bootstrap : Bootstrap) :
    bootstrap.lines = bootstrap.headLines ++ initLine :: bootstrap.initLines ++
      "\x7d" :: (runtimeLines ++ [bootstrap.startLine]) := by
  rw [lines_eq]
  simp only [openingLines, headLines, initLine, initLines, storeLines, List.append_assoc,
    List.cons_append, List.nil_append]

theorem beginsAmong_headLines (bootstrap : Bootstrap) :
    ∀ line ∈ bootstrap.headLines, BeginsAmong ["let ", "const "] line := by
  rw [headLines, List.forall_mem_cons, List.forall_mem_singleton]
  exact ⟨⟨"let ", by decide, begins_ofList rfl⟩,
    ⟨"const ", by decide, begins_append (begins_append (begins_ofList rfl) _) _⟩⟩

theorem beginsAmong_storeLines (store : Store) :
    ∀ line ∈ storeLines store, BeginsAmong ["const ", "DB="] line := by
  rw [storeLines, List.forall_mem_cons, List.forall_mem_singleton]
  exact ⟨⟨"const ", by decide, begins_append (begins_append (begins_ofList rfl) _) _⟩,
    ⟨"DB=", by decide, begins_ofList rfl⟩⟩

theorem begins_of_mem_createLines {tables : List Schema} :
    ∀ line ∈ tables.map createLine, begins "DB.run(" line = true := by
  intro line member
  obtain ⟨table, -, rfl⟩ := List.mem_map.mp member
  exact begins_append (begins_self_append ..) _

theorem beginsAmong_initLines (bootstrap : Bootstrap) :
    ∀ line ∈ bootstrap.initLines, BeginsAmong ["const ", "DB=", "DB.run("] line := by
  rw [initLines, List.forall_mem_append]
  refine ⟨?_, ?_⟩
  · intro line member
    exact (beginsAmong_storeLines _ line member).mono (by decide)
  · intro line member
    exact ⟨"DB.run(", by decide, begins_of_mem_createLines line member⟩

theorem filter_run_initLines (bootstrap : Bootstrap) :
    bootstrap.initLines.filter (begins "DB.run(") = bootstrap.tables.map createLine := by
  rw [initLines, List.filter_append, filter_begins_eq_nil (beginsAmong_storeLines _) (by decide),
    List.filter_eq_self.mpr begins_of_mem_createLines, List.nil_append]

theorem beginsAmong_startLine (bootstrap : Bootstrap) :
    BeginsAmong ["window."] bootstrap.startLine :=
  ⟨"window.", .head _, begins_append (begins_append (begins_ofList rfl) _) _⟩

/-- How the lines behind the function that opens the store begin. -/
theorem beginsAmong_tailLines (bootstrap : Bootstrap) :
    ∀ line ∈ runtimeLines ++ [bootstrap.startLine],
      BeginsAmong ["function ", "window."] line := by
  rw [List.forall_mem_append, List.forall_mem_singleton]
  refine ⟨?_, bootstrap.beginsAmong_startLine.mono (by decide)⟩
  intro line member
  exact (beginsAmong_runtimeLines line member).mono (by decide)

/-- Tables are made nowhere else. -/
theorem filter_run_lines (bootstrap : Bootstrap) :
    bootstrap.lines.filter (begins "DB.run(") = bootstrap.tables.map createLine := by
  have noInit : ¬ begins "DB.run(" initLine = true := by decide
  have noClosing : ¬ begins "DB.run(" "\x7d" = true := by decide
  rw [lines_eq_init, List.filter_append, List.filter_append, List.filter_cons_of_neg noInit,
    List.filter_cons_of_neg noClosing, filter_run_initLines,
    filter_begins_eq_nil (beginsAmong_headLines bootstrap) (by decide),
    filter_begins_eq_nil (beginsAmong_tailLines bootstrap) (by decide), List.nil_append,
    List.append_nil]

/-- The line that opens the function stands there once, and no line inside closes it. -/
theorem initLine_not_mem (bootstrap : Bootstrap) :
    initLine ∉ bootstrap.headLines ++ bootstrap.initLines ++
      (runtimeLines ++ [bootstrap.startLine]) ∧ "\x7d" ∉ bootstrap.initLines := by
  have opens : begins "async " initLine = true := by decide
  refine ⟨?_, ?_⟩
  · intro member
    rw [List.mem_append, List.mem_append] at member
    rcases member with (inHead | inside) | inTail
    · exact (beginsAmong_headLines bootstrap _ inHead).ne opens (by decide) rfl
    · exact (beginsAmong_initLines bootstrap _ inside).ne opens (by decide) rfl
    · exact (beginsAmong_tailLines bootstrap _ inTail).ne opens (by decide) rfl
  · intro inside
    have closes : begins "\x7d" "\x7d" = true := by decide
    exact (beginsAmong_initLines bootstrap _ inside).ne closes (by decide) rfl

theorem getLast?_lines (bootstrap : Bootstrap) :
    bootstrap.lines.getLast? = some bootstrap.startLine := by
  rw [lines_eq, List.getLast?_concat]

end Bootstrap

/-- The scripts of a page carry out its registry. All tables of the program, in preorder, are made
in this order, inside the function that opens the store and nowhere else, and are shown in this
order at the start. The functions of the behavior are the ones that show these tables, and then
those of the program in preorder. -/
theorem compile_registry {settings : Settings} {source : String} {page : Page}
    (success : compile settings source = .ok page) :
    ∃ nodes schemas functions, parse settings.mode source = .ok nodes ∧
      schemas = (Node.subtreeAll nodes).filterMap Node.schema? ∧
      functions = (Node.subtreeAll nodes).filterMap Node.functionName? ∧
      (linesOf page.bootstrap.render).filter (begins "DB.run(") =
        schemas.map (fun schema => "DB.run(" ++ Literal.script schema.create ++ ");") ∧
      (∃ front inner back,
        linesOf page.bootstrap.render =
          front ++ "async function initDB()\x7b" :: inner ++ "\x7d" :: back ∧
        "async function initDB()\x7b" ∉ front ++ inner ++ back ∧ "\x7d" ∉ inner ∧
        inner.filter (begins "DB.run(") =
          schemas.map fun schema => "DB.run(" ++ Literal.script schema.create ++ ");") ∧
      (linesOf page.bootstrap.render).getLast? =
        some ("window.addEventListener(\"DOMContentLoaded\",async()=>\x7bawait initDB();" ++
          String.join (schemas.map fun schema => "render_" ++ schema.name ++ "();") ++ "\x7d);") ∧
      (linesOf page.behavior.render).filter (begins "function ") =
        schemas.map (fun schema => "function render_" ++ schema.name ++ "()\x7b") ++
          functions.map fun name => "function " ++ name ++ "(arg)\x7b" := by
  obtain ⟨nodes, parsed, schemas, tables, names⟩ := compile_declarations success
  obtain ⟨_, -, generated⟩ := (compile_eq_ok_iff settings source page).mp success
  obtain ⟨bootstrapLines, behaviorLines⟩ := generate_linesOf generated
  obtain ⟨once, unclosed⟩ := Bootstrap.initLine_not_mem page.bootstrap
  have renders : page.behavior.renderFunctions.map RenderFunction.opening =
      page.bootstrap.tables.map fun schema => "function render_" ++ schema.name ++ "()\x7b" := by
    rw [← tables, List.map_map]
    exact List.map_congr_left fun function _ => function.opening_eq
  have handlers : page.behavior.handlers.map Handler.opening =
      (page.behavior.handlers.map Handler.name).map fun name =>
        "function " ++ name ++ "(arg)\x7b" := by
    rw [List.map_map]
    rfl
  refine ⟨nodes, page.bootstrap.tables, page.behavior.handlers.map Handler.name, parsed, schemas,
    names, ?_, ?_, ?_, ?_⟩
  · rw [bootstrapLines]
    exact Bootstrap.filter_run_lines page.bootstrap
  · refine ⟨page.bootstrap.headLines, page.bootstrap.initLines, _, ?_, once, unclosed,
      Bootstrap.filter_run_initLines page.bootstrap⟩
    rw [bootstrapLines]
    exact Bootstrap.lines_eq_init page.bootstrap
  · rw [bootstrapLines]
    exact Bootstrap.getLast?_lines page.bootstrap
  · rw [behaviorLines, Behavior.filter_function_lines, renders, handlers]

/-- Tables in a block and behind a function, no list, and texts that look like lines. -/
def registryProgram : String :=
  "ui \x7b db \x7b table t \x7b \x7d \x7d text \"DB.run(\" \x7d " ++
    "fn go \x7b insert t function \x7d table u \x7b </b> DB.run( \x7d"

theorem compile_registryProgram : ∃ page, compile {} registryProgram = .ok page ∧
    (linesOf page.bootstrap.render).getLast? =
      some ("window.addEventListener(\"DOMContentLoaded\",async()=>\x7bawait initDB();" ++
        "render_t();render_u();" ++ "\x7d);") ∧
    (linesOf page.behavior.render).filter (begins "function ") =
      ["function render_t()\x7b", "function render_u()\x7b", "function go(arg)\x7b"] := by
  obtain ⟨page, success, parts⟩ := exists_page_of_any (by decide +kernel :
    (compile {} registryProgram).toOption.any (fun page =>
      page.bootstrap.tables == [⟨"t", ["text"]⟩, ⟨"u", ["</b>", "DB.run("]⟩] &&
        page.behavior.handlers.map Handler.name == ["go"]) = true)
  obtain ⟨tables, handlers⟩ := Bool.and_eq_true_iff.mp parts
  obtain ⟨nodes, parsed, declared, -, named⟩ := compile_declarations success
  obtain ⟨_, _, _, same, rfl, rfl, -, -, last, functions⟩ := compile_registry success
  cases parsed.symm.trans same
  rw [← declared, beq_iff_eq.mp tables] at last functions
  rw [← named, beq_iff_eq.mp handlers] at functions
  exact ⟨page, success, last, functions⟩

end Pagewright
