import Pagewright.Proofs.Globals
import Pagewright.Proofs.UsedNames

set_option autoImplicit false

namespace Pagewright

open Text

/-- A name that may stand in a script, and that scripts may use. -/
structure Usable (name : String) : Prop where
  identifier : Identifier name
  known : Known name

namespace Usable

variable {name : String} {middle stop : Spot}

theorem last {back : List Char} (usable : Usable name) (apart : separates back = true)
    (checked : passes (.code .free) stop back = true) :
    Uses (.code .free) stop (name ++ String.ofList back) := by
  refine .name usable.identifier (fun _ => usable.known) ?_ (.fixed checked)
  rwa [String.toList_ofList]

/-- A name and a fixed text before another text. -/
theorem before {front : List Char} {back : String} (usable : Usable name)
    (apart : separates front = true) (checked : passes (.code .free) middle front = true)
    (behind : Uses middle stop back) :
    Uses (.code .free) stop (name ++ (String.ofList front ++ back)) := by
  refine .name usable.identifier (fun _ => usable.known) ?_ (.opening checked behind)
  rw [String.toList_append, String.toList_ofList]
  exact separates_append apart _

end Usable

theorem usable_renderFunctionName {table : String} (identifier : Identifier table) :
    Usable (renderFunctionName table) :=
  ⟨identifier_renderFunctionName identifier, .inr (.inr ⟨table, rfl⟩)⟩

theorem usable_localName (number : Nat) : Usable (localName number) :=
  ⟨identifier_localName number, .inl (by rw [isBound, isNumbered_localName, Bool.or_true])⟩

/-- The element of a slot. -/
theorem usable_el : Usable "el" :=
  ⟨(isIdentifier_iff _).mp (by decide), .inl (by decide)⟩

namespace Template

-- Of fixed texts, `rfl` runs the reader.

theorem isCode_elementLine {element tag setup parent : String} (usable : Usable element)
    (hangs : Usable parent) (inTag : Uses .literal .literal tag) (inSetup : IsCode setup) :
    IsCode (elementLine element tag setup parent) := by
  have ending : IsCode (element ++ ");") := usable.last rfl rfl
  have hanging : IsCode (parent ++ (".appendChild(" ++ (element ++ ");"))) :=
    hangs.before rfl rfl ending
  have setUp : Uses .literal (.code .free)
      ("\");" ++ (setup ++ (parent ++ (".appendChild(" ++ (element ++ ");"))))) :=
    .opening rfl (inSetup.append hanging)
  delta elementLine
  simp only [String.append_assoc]
  have constant : IsCode "const " := .fixed rfl
  exact constant.append (usable.before rfl rfl (inTag.append setUp))

theorem isCode_line {parent : String} (hangs : Usable parent) (number : Nat) (template : Template)
    (named : template.WellNamed) : IsCode (template.line parent number) := by
  have usable := usable_localName number
  cases template with
  | field name =>
    apply isCode_elementLine usable hangs (.fixed rfl)
    simp only [String.append_assoc]
    exact usable.before rfl rfl ((uses_script .free name).append (.fixed rfl))
  | button label handler =>
    have key : IsCode (Literal.script Schema.keyColumn ++ ("]" ++ (")" ++ ";"))) :=
      isCode_append (uses_script .free _) (isCode_append (.fixed rfl)
        (isCode_append (.fixed rfl) (.fixed rfl)))
    -- The function of the program is a member of the global object here.
    have call : IsCode ("window." ++ (handler ++ ("(" ++ ("row[" ++
        (Literal.script Schema.keyColumn ++ ("]" ++ (")" ++ ";"))))))) := by
      have dot : Uses (.code .free) (.code .member) "window." := .fixed rfl
      refine dot.append (.name named (by simp) rfl ?_)
      exact isCode_append (.fixed rfl) (isCode_append (.fixed rfl) key)
    apply isCode_elementLine usable hangs (.fixed rfl)
    simp only [globalCall, String.append_assoc]
    have clicked : IsCode (localName number ++ (".onclick=()=>" ++ _)) := usable.before rfl rfl call
    exact usable.before rfl rfl ((uses_script .free label).append (.opening rfl clicked))
  | container direction children =>
    apply isCode_elementLine usable hangs (.fixed rfl)
    simp only [String.append_assoc]
    exact usable.before rfl rfl ((uses_script .free _).append (.fixed rfl))

end Template

theorem isCode_renderLine {table : String} (identifier : Identifier table) :
    IsCode (renderLine table) :=
  (usable_renderFunctionName identifier).last rfl rfl

/-- A literal between fixed texts. -/
theorem isCode_quoting {front back : List Char} (text : String)
    (before : passes (.code .free) (.code .free) front = true)
    (after : passes (.code .free) (.code .free) back = true) :
    IsCode (String.ofList front ++ Literal.script text ++ String.ofList back) :=
  (Uses.opening before (uses_script .free text)).append (.fixed after)

/-- The line that defines a function. -/
theorem isCode_definition {name : String} {back : List Char} (identifier : Identifier name)
    (apart : separates back = true) (checked : passes (.code .free) (.code .free) back = true) :
    IsCode ("function " ++ name ++ String.ofList back) := by
  rw [String.append_assoc]
  have defining : Uses (.code .free) (.code .definition) "function " := .fixed rfl
  refine defining.append (.name identifier (by simp) ?_ (.fixed checked))
  rwa [String.toList_ofList]

/-- The value of an input ends in the name of a member, which the end of the line ends. -/
theorem isCode_inputValue (id : String) : IsCode (inputValue id ++ ");") := by
  have value : Uses (.code .free) (.word .member "value".toList) (inputValue id) :=
    (Uses.opening rfl (uses_script .free id)).append (.fixed rfl)
  exact value.append (.fixed rfl)

theorem UpdateValue.isCode_expression (value : UpdateValue) :
    IsCode (value.expression ++ ");") := by
  cases value with
  | literal text => exact (uses_script .free text).append (.fixed rfl)
  | input id => exact isCode_inputValue id

theorem Effect.isCode_lines (effect : Effect) (identifier : Identifier effect.table) :
    ∀ line ∈ effect.lines, IsCode line := by
  have render : IsCode (renderLine effect.table) := isCode_renderLine identifier
  cases effect with
  | insert table input =>
    rw [lines, List.forall_mem_singleton, String.append_assoc]
    exact (isCode_quoting table rfl rfl).append (isCode_inputValue input)
  | render table =>
    rw [lines, List.forall_mem_singleton]
    exact render
  | delete table =>
    rw [lines, List.forall_mem_cons, List.forall_mem_singleton]
    exact ⟨isCode_quoting table rfl rfl, render⟩
  | update table value =>
    rw [lines, List.forall_mem_cons, List.forall_mem_singleton]
    refine ⟨?_, render⟩
    rw [String.append_assoc]
    exact (isCode_quoting table rfl rfl).append value.isCode_expression

theorem isCode_fixedLines : ∀ line ∈ fixedLines, IsCode line := by
  delta fixedLines
  simp only [List.forall_mem_cons]
  exact ⟨.fixed rfl, .fixed rfl, .fixed rfl, .fixed rfl, .fixed rfl, .fixed rfl,
    List.forall_mem_nil _⟩

theorem LineShape.isCode {line : String} (shape : LineShape line) : IsCode line := by
  cases shape with
  | node number hung named =>
    apply Template.isCode_line _ number _ named
    rcases hung with rfl | ⟨other, rfl⟩
    · exact usable_el
    · exact usable_localName other
  | item number =>
    have usable := usable_localName number
    have setup : IsCode (localName number ++ ".className=\"item\";") := usable.last rfl rfl
    exact Template.isCode_elementLine usable usable_el (.fixed rfl) setup
  | slot place => exact (Uses.opening rfl (isCode_toString place)).append (.fixed rfl)
  | slots table slots =>
    have lookups : IsCode (",".intercalate (slots.map (RenderFunction.lookup table))) := by
      apply Uses.intercalate (.fixed rfl)
      exact List.forall_mem_map.mpr fun slot _ => isCode_quoting _ rfl rfl
    exact (Uses.opening rfl lookups).append (.fixed rfl)
  | rows query => exact isCode_quoting query rfl rfl
  | renderFunction identifier =>
    exact isCode_definition (identifier_renderFunctionName identifier) rfl rfl
  | handler identifier => exact isCode_definition identifier rfl rfl
  | effect identifier written => exact Effect.isCode_lines _ identifier _ written
  | fixed among => exact isCode_fixedLines _ among

theorem Behavior.WellNamed.isCode_lines {behavior : Behavior} (named : behavior.WellNamed) :
    ∀ line ∈ behavior.lines, IsCode line :=
  fun line member => (named.lineShape line member).isCode

namespace Bootstrap

theorem isCode_runtimeLines : ∀ line ∈ runtimeLines, IsCode line := by
  delta runtimeLines
  simp only [List.forall_mem_cons]
  exact ⟨.fixed rfl, .fixed rfl,
    isCode_append (isCode_append (.fixed rfl) (.fixed rfl)) (.fixed rfl),
    isCode_append (.fixed rfl) (.fixed rfl), isCode_append (.fixed rfl) (.fixed rfl),
    isCode_append (.fixed rfl) (.fixed rfl), List.forall_mem_nil _⟩

theorem isCode_fieldsEntry (table : Schema) : IsCode (fieldsEntry table) := by
  have columns : IsCode (",".intercalate (table.fields.map Literal.script)) :=
    .intercalate (.fixed rfl) (List.forall_mem_map.mpr fun field _ => uses_script .free field)
  exact (((uses_script .free table.name).append (.fixed rfl)).append columns).append (.fixed rfl)

theorem isCode_openingLines (bootstrap : Bootstrap) :
    ∀ line ∈ bootstrap.openingLines, IsCode line := by
  have entries : IsCode (",".intercalate (bootstrap.tables.map fieldsEntry)) :=
    .intercalate (.fixed rfl) (List.forall_mem_map.mpr fun table _ => isCode_fieldsEntry table)
  rw [openingLines, List.forall_mem_append, List.forall_mem_append, List.forall_mem_singleton]
  refine ⟨⟨?_, ?_⟩, .fixed rfl⟩
  · simp only [List.forall_mem_cons]
    exact ⟨.fixed rfl, (Uses.opening rfl entries).append (.fixed rfl), .fixed rfl,
      isCode_quoting _ rfl rfl, .fixed rfl, List.forall_mem_nil _⟩
  · exact List.forall_mem_map.mpr fun table _ => isCode_quoting _ rfl rfl

theorem isCode_startLine {bootstrap : Bootstrap}
    (tables : ∀ table ∈ bootstrap.tables, Identifier table.name) : IsCode bootstrap.startLine := by
  have calls : IsCode (String.join (bootstrap.tables.map fun table => renderLine table.name)) :=
    .join (List.forall_mem_map.mpr fun table member => isCode_renderLine (tables table member))
  exact (Uses.append (.fixed rfl) calls).append (.fixed rfl)

theorem isCode_lines {bootstrap : Bootstrap}
    (tables : ∀ table ∈ bootstrap.tables, Identifier table.name) :
    ∀ line ∈ bootstrap.lines, IsCode line := by
  rw [lines_eq, List.forall_mem_append, List.forall_mem_append, List.forall_mem_singleton]
  exact ⟨⟨isCode_openingLines bootstrap, isCode_runtimeLines⟩, isCode_startLine tables⟩

end Bootstrap

theorem mem_usedGlobals_iff (page : Page) (name : String) :
    name ∈ page.usedGlobals ↔
      (name ∈ usedNames page.bootstrap.render ∨ name ∈ usedNames page.behavior.render) ∧
      isBound name = false := by
  rw [Page.usedGlobals, List.mem_filter, List.mem_append, Bool.not_eq_true']

section Pages

variable {settings : Settings} {nodes : List Node} {page : Page}

theorem generate_usedNames (success : generate settings nodes = .ok page) :
    usedNames page.bootstrap.render = page.bootstrap.lines.flatMap usedNames ∧
      usedNames page.behavior.render = page.behavior.lines.flatMap usedNames :=
  ⟨usedNames_scriptText (Bootstrap.isCode_lines (generate_tables_identifiers success)),
    usedNames_scriptText (generate_wellNamed success).isCode_lines⟩

/-- Beside what they bind themselves, the scripts use the fixed globals and the functions that show
tables. -/
theorem generate_usedGlobals (success : generate settings nodes = .ok page) :
    ∀ name ∈ page.usedGlobals,
      name ∈ scriptGlobals ∨ ∃ table, name = renderFunctionName table := by
  intro name member
  obtain ⟨used, free⟩ := (mem_usedGlobals_iff page name).mp member
  obtain ⟨inBootstrap, inBehavior⟩ := generate_usedNames success
  have known : Known name := by
    rw [inBootstrap, inBehavior, List.mem_flatMap, List.mem_flatMap] at used
    rcases used with ⟨line, written, occurs⟩ | ⟨line, written, occurs⟩
    · have code := Bootstrap.isCode_lines (generate_tables_identifiers success) line written
      exact known_of_mem_usedNames code occurs
    · have code := (generate_wellNamed success).isCode_lines line written
      exact known_of_mem_usedNames code occurs
  rcases known with bound | globals
  · rw [free] at bound
    cases bound
  · exact globals

/-- Every page makes a text of a name, and reports that its store is missing. -/
theorem generate_uses_unguarded (success : generate settings nodes = .ok page) :
    "String" ∈ page.usedGlobals ∧ "Error" ∈ page.usedGlobals := by
  have inBootstrap := (generate_usedNames success).1
  have runtime : ∀ line ∈ Bootstrap.runtimeLines, line ∈ page.bootstrap.lines := by
    intro line member
    rw [Bootstrap.lines_eq]
    exact List.mem_append_left _ (List.mem_append_right _ member)
  have free : isBound "String" = false ∧ isBound "Error" = false := by decide +kernel
  simp only [mem_usedGlobals_iff, inBootstrap, List.mem_flatMap]
  refine ⟨⟨.inl ⟨_, runtime _ (.tail _ (.head _)), mem_usedNames_ofList ?_⟩, free.1⟩,
    ⟨.inl ⟨_, runtime _ (.head _), mem_usedNames_ofList ?_⟩, free.2⟩⟩
  · decide +kernel
  · decide +kernel

/-- The checks refuse the fixed globals that the scripts use, two apart, and all names of functions
that show tables. -/
theorem generate_handlers_unguarded (success : generate settings nodes = .ok page) :
    ∀ handler ∈ page.behavior.handlers,
      (handler.name ∈ scriptGlobals ∨ ∃ table, handler.name = renderFunctionName table) →
        handler.name = "String" ∨ handler.name = "Error" := by
  have reserved : "window" ∈ reservedWords ∧ "document" ∈ reservedWords := by decide +kernel
  intro handler member taken
  obtain ⟨⟨-, notReserved⟩, notRuntime, notRender⟩ :=
    generate_handlers_callable success handler member
  rcases taken with listed | ⟨table, shows⟩
  · rcases List.mem_append.mp listed with runtime | foreign
    · exact absurd runtime notRuntime
    · simp only [List.mem_cons, List.not_mem_nil, or_false] at foreign
      rcases foreign with same | same | unguarded
      · exact absurd (same ▸ reserved.1) notReserved
      · exact absurd (same ▸ reserved.2) notReserved
      · exact unguarded
  · exact absurd (shows ▸ starts_renderFunctionName table) notRender

end Pages

/-- The global names that the scripts of a page use are fixed or those of functions that show
tables. A function of the program takes none of them, unless it is named `String` or `Error`: these
two are in use on every page, and the checks let them pass. -/
theorem compile_usedGlobals {settings : Settings} {source : String} {page : Page}
    (success : compile settings source = .ok page) :
    (∀ name ∈ page.usedGlobals, name ∈ scriptGlobals ∨ ∃ table, name = "render_" ++ table) ∧
    ∀ handler ∈ page.behavior.handlers,
      (handler.name ∈ page.usedGlobals ↔ handler.name = "String" ∨ handler.name = "Error") ∧
      ((handler.name ∈ scriptGlobals ∨ ∃ table, handler.name = "render_" ++ table) ↔
        handler.name = "String" ∨ handler.name = "Error") := by
  obtain ⟨_, -, generated⟩ := (compile_eq_ok_iff settings source page).mp success
  have globals := generate_usedGlobals generated
  have unguarded := generate_handlers_unguarded generated
  obtain ⟨usesString, usesError⟩ := generate_uses_unguarded generated
  have fixed : "String" ∈ scriptGlobals ∧ "Error" ∈ scriptGlobals := by decide +kernel
  refine ⟨globals, fun handler member => ⟨⟨fun used => ?_, ?_⟩, unguarded handler member, ?_⟩⟩
  · exact unguarded handler member (globals _ used)
  · rintro (same | same)
    · exact same ▸ usesString
    · exact same ▸ usesError
  · rintro (same | same)
    · exact .inl (same ▸ fixed.1)
    · exact .inl (same ▸ fixed.2)

/-- Functions that are named like a parameter of the scripts, nearly like a global, and like a
member that the scripts use. -/
def neighborProgram : String :=
  "db \x7b table t \x7b \x7d \x7d ui \x7b list t \x7b item \x7b button \"x\" row \x7d \x7d \x7d " ++
    "fn row \x7b delete t \x7d fn string \x7b refresh t \x7d fn replace \x7b \x7d"

theorem compile_neighborProgram : ∃ page, compile {} neighborProgram = .ok page ∧
    page.behavior.handlers.map Handler.name = ["row", "string", "replace"] ∧
    ∀ name ∈ ["row", "string", "replace"], name ∉ page.usedGlobals := by
  obtain ⟨page, success, parts⟩ := exists_page_of_any (by decide +kernel :
    (compile {} neighborProgram).toOption.any (fun page =>
      page.behavior.handlers.map Handler.name == ["row", "string", "replace"]) = true)
  have names := beq_iff_eq.mp parts
  refine ⟨page, success, names, ?_⟩
  rw [← names, List.forall_mem_map]
  intro handler member used
  have unguarded := ((compile_usedGlobals success).2 handler member).1.mp used
  have named : handler.name ∈ ["row", "string", "replace"] :=
    names ▸ List.mem_map_of_mem member
  have others : "String" ∉ ["row", "string", "replace"] ∧
      "Error" ∉ ["row", "string", "replace"] := by decide +kernel
  rcases unguarded with same | same
  · exact others.1 (same ▸ named)
  · exact others.2 (same ▸ named)

/-- A function of a program that stands in the place of a global that its page uses. -/
theorem captured_string : ∃ page, compile {} "fn String \x7b \x7d" = .ok page ∧
    ∃ handler ∈ page.behavior.handlers, handler.name = "String" ∧
      handler.name ∈ page.usedGlobals := by
  obtain ⟨page, success, parts⟩ := exists_page_of_any (by decide +kernel :
    (compile {} "fn String \x7b \x7d").toOption.any (fun page =>
      page.behavior.handlers == [⟨"String", []⟩]) = true)
  obtain ⟨_, -, generated⟩ := (compile_eq_ok_iff _ _ page).mp success
  refine ⟨page, success, ⟨"String", []⟩, ?_, rfl, (generate_uses_unguarded generated).1⟩
  rw [beq_iff_eq.mp parts]
  exact .head _

end Pagewright
