import Pagewright.Proofs.RowLines
import Pagewright.Proofs.UsedNames

set_option autoImplicit false

namespace Pagewright

open Text

/-- The names that a text declares as constants, which stand behind the word `const`. -/
def constNames : List Char → List String
  | [] => []
  | c :: rest =>
    if "const ".toList.isPrefixOf (c :: rest) then
      String.ofList ((rest.drop 5).takeWhile continuesIdentifier) :: constNames rest
    else constNames rest

section Reader

theorem constNames_of_other {c : Char} {rest : List Char}
    (other : "const ".toList.isPrefixOf (c :: rest) = false) :
    constNames (c :: rest) = constNames rest := by
  rw [constNames, other]
  rfl

/-- Without a blank there is no word before one. -/
theorem constNames_eq_nil {text : List Char} (tight : ' ' ∉ text) : constNames text = [] := by
  induction text with
  | nil => rfl
  | cons c rest ih =>
    have other : "const ".toList.isPrefixOf (c :: rest) = false := by
      rw [Bool.eq_false_iff]
      intro front
      have blank : ' ' ∈ "const ".toList := by decide
      exact tight ((List.isPrefixOf_iff_prefix.mp front).subset blank)
    rw [constNames_of_other other, ih fun member => tight (.tail _ member)]

theorem constNames_const (back : List Char) :
    constNames ("const ".toList ++ back) =
      String.ofList (back.takeWhile continuesIdentifier) :: constNames back := rfl

theorem constNames_function (back : List Char) :
    constNames ("function ".toList ++ back) = constNames back := rfl

theorem takeWhile_break (passes : Char → Bool) {mark : Char} (stops : passes mark = false)
    (first second : List Char) :
    (first ++ mark :: second).takeWhile passes = first.takeWhile passes := by
  induction first with
  | nil => rw [List.nil_append, List.takeWhile_cons, stops]; rfl
  | cons c rest ih => rw [List.cons_append, List.takeWhile_cons, List.takeWhile_cons, ih]

theorem prefix_of_prefix_break {mark : Char} {start first second : List Char}
    (absent : mark ∉ start) (front : start <+: first ++ mark :: second) : start <+: first := by
  by_cases short : start.length ≤ first.length
  · exact List.prefix_of_prefix_length_le front (List.prefix_append _ _) short
  · have before : first ++ [mark] <+: first ++ mark :: second :=
      (List.prefix_append_right_inj first).mpr ⟨second, rfl⟩
    have inside : first ++ [mark] <+: start := by
      apply List.prefix_of_prefix_length_le before front
      rw [List.length_append, List.length_singleton]
      omega
    exact absurd (inside.subset (List.mem_append_right _ (.head _))) absent

/-- The names of two lines are those of the one and those of the other. -/
theorem constNames_break (first second : List Char) :
    constNames (first ++ '\n' :: second) = constNames first ++ constNames second := by
  induction first with
  | nil => exact constNames_of_other rfl
  | cons c rest ih =>
    -- The word has no line feed, so it stands in the first line as a whole or not at all.
    by_cases front : "const ".toList.isPrefixOf (c :: rest) = true
    · obtain ⟨back, whole⟩ := List.isPrefixOf_iff_prefix.mp front
      have word : "const ".toList = 'c' :: "onst ".toList := rfl
      have skips : ∀ text, constNames ("onst ".toList ++ text) = constNames text := fun _ => rfl
      have declares : ∀ text, constNames ('c' :: ("onst ".toList ++ text)) =
          String.ofList (text.takeWhile continuesIdentifier) :: constNames text := constNames_const
      rw [word, List.cons_append] at whole
      obtain ⟨rfl, rfl⟩ := List.cons.inj whole
      rw [List.append_assoc, skips, skips] at ih
      rw [List.cons_append, List.append_assoc, declares, declares, ih,
        takeWhile_break continuesIdentifier (by decide), List.cons_append]
    · have later : "const ".toList.isPrefixOf (c :: (rest ++ '\n' :: second)) = false := by
        rw [Bool.eq_false_iff]
        intro longer
        have whole : "const ".toList <+: (c :: rest) ++ '\n' :: second :=
          List.isPrefixOf_iff_prefix.mp longer
        exact front (List.isPrefixOf_iff_prefix.mpr (prefix_of_prefix_break (by decide) whole))
      rw [List.cons_append, constNames_of_other later, ih,
        constNames_of_other (Bool.eq_false_iff.mpr front)]

end Reader

section Tight

/-- From the one region to the other, the code of the text has no blank. -/
def Tight (start stop : Region) (text : String) : Prop :=
  ∃ code, scanCode start text.toList = (code, stop) ∧ ' ' ∉ code

variable {start middle stop : Region}

theorem Tight.append {first second : String} (front : Tight start middle first)
    (back : Tight middle stop second) : Tight start stop (first ++ second) := by
  obtain ⟨code, scanned, noBlank⟩ := front
  obtain ⟨more, scannedMore, noMore⟩ := back
  refine ⟨code ++ more, ?_, ?_⟩
  · rw [String.toList_append, scanCode_append, scanned, scannedMore]
  · rw [List.mem_append, not_or]
    exact ⟨noBlank, noMore⟩

/-- For fixed texts, which reduce to their characters. -/
theorem Tight.fixed {text : List Char}
    (checked : (decide ((scanCode start text).2 = stop) && !(scanCode start text).1.contains ' ') =
      true) : Tight start stop (String.ofList text) := by
  obtain ⟨ends, noBlank⟩ := Bool.and_eq_true_iff.mp checked
  refine ⟨(scanCode start text).1, ?_, by simpa using noBlank⟩
  rw [String.toList_ofList, ← of_decide_eq_true ends]

theorem tight_of_not_mem {text : String} (noQuote : '"' ∉ text.toList)
    (noBlank : ' ' ∉ text.toList) : Tight .code .code text :=
  ⟨text.toList, scanCode_of_not_mem noQuote, noBlank⟩

theorem Identifier.tight {name : String} (identifier : Identifier name) : Tight .code .code name :=
  tight_of_not_mem (identifier.not_mem (by decide)) (identifier.not_mem (by decide))

theorem tight_localName (number : Nat) : Tight .code .code (localName number) :=
  (identifier_localName number).tight

theorem tight_toString (number : Nat) : Tight .code .code (toString number) := by
  refine tight_of_not_mem ?_ ?_ <;> intro member <;> cases isDigit_of_mem_toString member

theorem tight_script (text : String) : Tight .code .code (Literal.script text) :=
  ⟨['"', '"'], scanCode_script text, by decide⟩

theorem tight_intercalate {separator : String} {texts : List String}
    (between : Tight start start separator) (each : ∀ text ∈ texts, Tight start start text) :
    Tight start start (separator.intercalate texts) := by
  have empty : Tight start start "" := ⟨[], rfl, List.not_mem_nil⟩
  exact intercalate_of_forall empty Tight.append between each

end Tight

/-- Outside of its literals, the line declares a numbered name exactly if it starts with that. -/
def NamesElements (line : String) : Prop :=
  ∃ code, scanCode .code line.toList = (code, .code) ∧
    (constNames code).filter isNumbered = if declaresElement line then [declaredName line] else []

section Lines

theorem declaresElement_eq_false {starts : List String} {line : String}
    (among : BeginsAmong starts line)
    (clash : ∀ other ∈ starts, clashes "const n".toList other.toList = true) :
    declaresElement line = false := by
  rw [declaresElement, among.begins_eq_false clash]
  rfl

/-- A line without blanks declares nothing. -/
theorem Tight.namesElements {line : String} (tight : Tight .code .code line)
    (other : declaresElement line = false) : NamesElements line := by
  obtain ⟨code, scanned, noBlank⟩ := tight
  refine ⟨code, scanned, ?_⟩
  rw [constNames_eq_nil noBlank, other]
  rfl

/-- A line declares a constant where it starts, and none behind that. -/
theorem exists_code_const {name after : String} (identifier : Identifier name)
    (starts : Heads '=' after) (tight : Tight .code .code after) :
    ∃ code, scanCode .code ("const " ++ (name ++ after)).toList = (code, .code) ∧
      constNames code = [name] := by
  obtain ⟨back, spelling⟩ := List.head?_eq_some_iff.mp starts
  obtain ⟨code, scanned, noBlank⟩ := tight
  have continues : ∀ c ∈ name.toList, continuesIdentifier c = true :=
    fun c member => identifier.continues member
  have kept : code = '=' :: (scanCode (Region.code.next '=') back).1 := by
    rw [spelling, scanCode_cons] at scanned
    exact (congrArg Prod.fst scanned).symm
  have stops : continuesIdentifier '=' = false := by decide
  have noBlanks : ' ' ∉ name.toList ++ code := by
    rw [List.mem_append, not_or]
    exact ⟨identifier.not_mem (by decide), noBlank⟩
  have first : (name.toList ++ code).takeWhile continuesIdentifier = name.toList := by
    rw [List.takeWhile_append_of_pos continues, kept, List.takeWhile_cons, stops]
    exact List.append_nil _
  have word : scanCode .code "const ".toList = ("const ".toList, .code) := rfl
  refine ⟨"const ".toList ++ (name.toList ++ code), ?_, ?_⟩
  · rw [String.toList_append, String.toList_append, scanCode_append, word, scanCode_append,
      scanCode_of_not_mem (identifier.not_mem (by decide)), scanned]
  · rw [constNames_const, first, constNames_eq_nil noBlanks, String.ofList_toList]

theorem namesElements_elementLine (number : Nat) {tag setup parent : String}
    (inTag : Tight .literal .literal tag) (inSetup : Tight .code .code (localName number ++ setup))
    (inParent : Tight .code .code parent) :
    NamesElements
      (Template.elementLine (localName number) tag (localName number ++ setup) parent) := by
  have element := tight_localName number
  have opens : Tight .code .literal "=document.createElement(\"" := .fixed rfl
  have closes : Tight .literal .code "\");" := .fixed rfl
  have calls : Tight .code .code ".appendChild(" := .fixed rfl
  have ends : Tight .code .code ");" := .fixed rfl
  have after := opens.append (inTag.append (closes.append (inSetup.append (inParent.append
    (calls.append (element.append ends))))))
  have starts : Heads '=' "=document.createElement(\"" := heads_ofList rfl
  obtain ⟨code, scanned, names⟩ := exists_code_const (identifier_localName number)
    (starts.append _) after
  have whole : Template.elementLine (localName number) tag (localName number ++ setup) parent =
      "const " ++ (localName number ++ ("=document.createElement(\"" ++ (tag ++ ("\");" ++
        ((localName number ++ setup) ++ (parent ++ (".appendChild(" ++
          (localName number ++ ");")))))))) := by
    delta Template.elementLine
    simp only [String.append_assoc]
  refine ⟨code, whole ▸ scanned, ?_⟩
  rw [names, Template.declaresElement_elementLine, Template.declaredName_elementLine]
  exact List.filter_cons_of_pos (isNumbered_localName number)

theorem tight_setup (number : Nat) {template : Template} (named : template.WellNamed) :
    Tight .code .code (template.setup number) := by
  have element := tight_localName number
  have ends : Tight .code .code ";" := .fixed rfl
  have bracket : Tight .code .code "];" := .fixed rfl
  cases template with
  | field name =>
    have shows : Tight .code .code ".textContent=row[" := .fixed rfl
    exact ((element.append shows).append (tight_script name)).append bracket
  | button label handler =>
    have shows : Tight .code .code ".textContent=" := .fixed rfl
    have clicks : Tight .code .code ".onclick=()=>" := .fixed rfl
    have window : Tight .code .code "window." := .fixed rfl
    have opens : Tight .code .code "(" := .fixed rfl
    have closes : Tight .code .code ")" := .fixed rfl
    have key : Tight .code .code ("row[" ++ Literal.script Schema.keyColumn ++ "]") := by
      have spelled : "row[" ++ Literal.script Schema.keyColumn ++ "]" = "row[\"id\"]" := by decide
      rw [spelled]
      exact .fixed rfl
    have call := (((window.append (Identifier.tight named)).append opens).append key).append closes
    have shown := ((element.append shows).append (tight_script label)).append ends
    exact (((shown.append element).append clicks).append call).append ends
  | container direction children =>
    have classed : Tight .code .code ".className=" := .fixed rfl
    exact ((element.append classed).append (tight_script _)).append ends

theorem namesElements_line {parent : String} (inParent : Tight .code .code parent) (number : Nat)
    {template : Template} (named : template.WellNamed) :
    NamesElements (template.line parent number) := by
  obtain ⟨changes, setup, -⟩ := Template.exists_changes named number
  have inSetup := tight_setup number named
  have inTag : Tight .literal .literal template.tag := by
    cases template <;> exact .fixed rfl
  rw [setup] at inSetup
  rw [Template.line_eq, setup]
  exact namesElements_elementLine number inTag inSetup inParent

/-- A line that declares a constant of another name declares no element. -/
theorem namesElements_const {line start name after : String}
    (whole : line = "const " ++ (name ++ after)) (front : begins start line = true)
    (clash : clashes "const n".toList start.toList = true) (other : isNumbered name = false)
    (identifier : Identifier name) (starts : Heads '=' after) (tight : Tight .code .code after) :
    NamesElements line := by
  obtain ⟨code, scanned, names⟩ := exists_code_const identifier starts tight
  have among : BeginsAmong [start] line := ⟨start, .head _, front⟩
  refine ⟨code, whole ▸ scanned, ?_⟩
  rw [names, declaresElement_eq_false among (List.forall_mem_singleton.mpr clash)]
  exact List.filter_cons_of_neg (by rw [other]; exact Bool.false_ne_true)

theorem namesElements_slot (place : Nat) :
    NamesElements ("\x7bconst el=slots[" ++ toString place ++ "];if(el)\x7b") := by
  have opens : Tight .code .code "=slots[" := .fixed rfl
  have closes : Tight .code .code "];if(el)\x7b" := .fixed rfl
  have starts : Heads '=' "=slots[" := heads_ofList rfl
  have identifier : Identifier "el" := (isIdentifier_iff _).mp (by decide)
  obtain ⟨code, scanned, names⟩ := exists_code_const identifier (starts.append _)
    (opens.append ((tight_toString place).append closes))
  have spelled : "\x7bconst el=slots[" = "\x7b" ++ ("const " ++ ("el" ++ "=slots[")) := by decide
  have brace : scanCode .code "\x7b".toList = (['\x7b'], .code) := rfl
  have among : BeginsAmong ["\x7b"] ("\x7bconst el=slots[" ++ toString place ++ "];if(el)\x7b") :=
    ⟨"\x7b", .head _, begins_append (begins_append (begins_ofList rfl) _) _⟩
  refine ⟨'\x7b' :: code, ?_, ?_⟩
  · rw [spelled, String.append_assoc, String.append_assoc, String.append_assoc,
      String.append_assoc, String.toList_append, scanCode_append, brace, scanned]
    rfl
  · rw [constNames_of_other rfl, names, declaresElement_eq_false among (by decide)]
    rfl

theorem namesElements_slots (table : String) (slots : List Slot) :
    NamesElements ("const slots=[" ++
      ",".intercalate (slots.map (RenderFunction.lookup table)) ++ "];") := by
  have opens : Tight .code .code "=[" := .fixed rfl
  have comma : Tight .code .code "," := .fixed rfl
  have closes : Tight .code .code "];" := .fixed rfl
  have queries : Tight .code .code "document.querySelector(" := .fixed rfl
  have ends : Tight .code .code ")" := .fixed rfl
  have lookups : ∀ text ∈ slots.map (RenderFunction.lookup table), Tight .code .code text :=
    List.forall_mem_map.mpr fun slot _ => (queries.append (tight_script _)).append ends
  have after := opens.append ((tight_intercalate comma lookups).append closes)
  have identifier : Identifier "slots" := (isIdentifier_iff _).mp (by decide)
  have starts : Heads '=' "=[" := heads_ofList rfl
  have spelled : "const slots=[" = "const " ++ ("slots" ++ "=[") := by decide
  have front : begins "const s" "const slots=[" = true := begins_ofList rfl
  have whole : "const slots=[" ++ ",".intercalate (slots.map (RenderFunction.lookup table)) ++
      "];" = "const " ++ ("slots" ++ ("=[" ++
        (",".intercalate (slots.map (RenderFunction.lookup table)) ++ "];"))) := by
    rw [spelled]
    simp only [String.append_assoc]
  exact namesElements_const whole (begins_append (begins_append front _) _) (by decide)
    (by decide) identifier (starts.append _) after

theorem namesElements_rows (query : String) :
    NamesElements ("const rows=queryRows(" ++ Literal.script query ++ ");") := by
  have opens : Tight .code .code "=queryRows(" := .fixed rfl
  have closes : Tight .code .code ");" := .fixed rfl
  have identifier : Identifier "rows" := (isIdentifier_iff _).mp (by decide)
  have starts : Heads '=' "=queryRows(" := heads_ofList rfl
  have spelled : "const rows=queryRows(" = "const " ++ ("rows" ++ "=queryRows(") := by decide
  have front : begins "const r" "const rows=queryRows(" = true := begins_ofList rfl
  have whole : "const rows=queryRows(" ++ Literal.script query ++ ");" =
      "const " ++ ("rows" ++ ("=queryRows(" ++ (Literal.script query ++ ");"))) := by
    rw [spelled]
    simp only [String.append_assoc]
  exact namesElements_const whole (begins_append (begins_append front _) _) (by decide)
    (by decide) identifier (starts.append _) (opens.append ((tight_script query).append closes))

/-- How the lines that carry nothing of the page begin. -/
def fixedStarts : List String := ["slots.", "if(", "rows.", "\x7d"]

theorem tight_fixedLines : ∀ line ∈ fixedLines, Tight .code .code line := by
  delta fixedLines
  simp only [List.forall_mem_cons]
  exact ⟨.fixed rfl, .fixed rfl, .fixed rfl, .fixed rfl, .fixed rfl, .fixed rfl,
    List.forall_mem_nil _⟩

theorem beginsAmong_fixedLines : ∀ line ∈ fixedLines, BeginsAmong fixedStarts line := by
  delta fixedLines
  simp only [List.forall_mem_cons]
  exact ⟨⟨"slots.", by decide, begins_ofList rfl⟩, ⟨"if(", by decide, begins_ofList rfl⟩,
    ⟨"rows.", by decide, begins_ofList rfl⟩, ⟨"\x7d", by decide, begins_ofList rfl⟩,
    ⟨"\x7d", by decide, begins_ofList rfl⟩, ⟨"\x7d", by decide, begins_ofList rfl⟩,
    List.forall_mem_nil _⟩

theorem namesElements_fixedLines : ∀ line ∈ fixedLines, NamesElements line := fun line among =>
  (tight_fixedLines line among).namesElements
    (declaresElement_eq_false (beginsAmong_fixedLines line among) (by decide))

theorem namesElements_function {name : String} (tight : Tight .code .code name) :
    NamesElements ("function " ++ name) := by
  obtain ⟨code, scanned, noBlank⟩ := tight
  have word : scanCode .code "function ".toList = ("function ".toList, .code) := rfl
  refine ⟨"function ".toList ++ code, ?_, ?_⟩
  · rw [String.toList_append, scanCode_append, word, scanned]
  · rw [constNames_function, constNames_eq_nil noBlank,
      declaresElement_eq_false ⟨"function ", List.mem_singleton.mpr rfl, begins_self_append ..⟩
        (by decide)]
    rfl

theorem Effect.tight_lines (effect : Effect) (identifier : Identifier effect.table) :
    ∀ line ∈ effect.lines, Tight .code .code line := by
  have renders : Tight .code .code (renderLine effect.table) :=
    (Tight.append (.fixed rfl) identifier.tight).append (.fixed rfl)
  have input : ∀ id, Tight .code .code (inputValue id) := fun id =>
    (Tight.append (.fixed rfl) (tight_script id)).append (.fixed rfl)
  cases effect with
  | insert table id =>
    rw [lines, List.forall_mem_singleton]
    exact (((Tight.append (.fixed rfl) (tight_script table)).append (.fixed rfl)).append
      (input id)).append (.fixed rfl)
  | render table =>
    rw [lines, List.forall_mem_singleton]
    exact renders
  | delete table =>
    rw [lines, List.forall_mem_cons, List.forall_mem_singleton]
    exact ⟨(Tight.append (.fixed rfl) (tight_script table)).append (.fixed rfl), renders⟩
  | update table value =>
    have expression : Tight .code .code value.expression := by
      cases value with
      | literal text => exact tight_script text
      | input id => exact input id
    rw [lines, List.forall_mem_cons, List.forall_mem_singleton]
    exact ⟨(((Tight.append (.fixed rfl) (tight_script table)).append (.fixed rfl)).append
      expression).append (.fixed rfl), renders⟩

theorem LineShape.namesElements {line : String} (shape : LineShape line) : NamesElements line := by
  cases shape with
  | node number hung named =>
    apply namesElements_line _ number named
    rcases hung with rfl | ⟨other, rfl⟩
    · exact .fixed rfl
    · exact tight_localName other
  | item number =>
    have inSetup : Tight .code .code (localName number ++ ".className=\"item\";") :=
      (tight_localName number).append (.fixed rfl)
    exact namesElements_elementLine number (.fixed rfl) inSetup (.fixed rfl)
  | slot place => exact namesElements_slot place
  | slots table slots => exact namesElements_slots table slots
  | rows query => exact namesElements_rows query
  | @renderFunction table identifier =>
    have tight : Tight .code .code (renderFunctionName table ++ "()\x7b") :=
      (Tight.append (.fixed rfl) identifier.tight).append (.fixed rfl)
    rw [String.append_assoc]
    exact namesElements_function tight
  | handler identifier =>
    rw [String.append_assoc]
    exact namesElements_function (identifier.tight.append (.fixed rfl))
  | @effect effect _ identifier written =>
    exact (effect.tight_lines identifier line written).namesElements
      (declaresElement_eq_false (effect.beginsAmong_lines line written) (by decide))
  | fixed among => exact namesElements_fixedLines _ among

end Lines

section Scripts

/-- Outside of its literals, a script declares the numbered names that its lines start with, in
their order. -/
theorem constNames_scriptText {lines : List String} (each : ∀ line ∈ lines, NamesElements line) :
    ∃ code, scanCode .code (scriptText lines).toList = (code, .code) ∧
      (constNames code).filter isNumbered = (lines.filter declaresElement).map declaredName := by
  induction lines with
  | nil => exact ⟨[], rfl, rfl⟩
  | cons line rest ih =>
    obtain ⟨⟨front, scanned, own⟩, others⟩ := List.forall_mem_cons.mp each
    obtain ⟨back, scannedRest, more⟩ := ih others
    have step : (scriptText (line :: rest)).toList =
        line.toList ++ '\n' :: (scriptText rest).toList := by
      simp [scriptText]
    have feed : scanCode .code ('\n' :: (scriptText rest).toList) =
        ('\n' :: (scanCode .code (scriptText rest).toList).1,
          (scanCode .code (scriptText rest).toList).2) := rfl
    refine ⟨front ++ '\n' :: back, ?_, ?_⟩
    · rw [step, scanCode_append, scanned, feed, scannedRest]
    · rw [constNames_break, List.filter_append, own, more]
      cases declares : declaresElement line with
      | false => rw [List.filter_cons_of_neg (by rw [declares]; decide)]; rfl
      | true => rw [List.filter_cons_of_pos declares]; rfl

end Scripts

end Pagewright
