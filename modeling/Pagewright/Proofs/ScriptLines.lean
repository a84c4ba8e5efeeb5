import Pagewright.Proofs.Delimiting
import Pagewright.Proofs.LineShapes
import Pagewright.Proofs.ScriptLiterals

set_option autoImplicit false

namespace Pagewright

open Text

/-- A text without a line feed and without the character that opens tags. -/
def Inline (text : String) : Prop := ∀ c ∈ text.toList, c ≠ '\n' ∧ c ≠ '<'

/-- For fixed texts, which reduce to their characters. -/
theorem inline_ofList {text : List Char}
    (each : (text.all fun c => c != '\n' && c != '<') = true) : Inline (String.ofList text) := by
  intro c member
  rw [String.toList_ofList] at member
  simpa using List.all_eq_true.mp each c member

theorem Inline.lineFeed_not_mem {text : String} (inline : Inline text) : '\n' ∉ text.toList :=
  fun member => (inline _ member).1 rfl

theorem Inline.lessThan_not_mem {text : String} (inline : Inline text) : '<' ∉ text.toList :=
  fun member => (inline _ member).2 rfl

@[simp] theorem inline_append (first second : String) :
    Inline (first ++ second) ↔ Inline first ∧ Inline second := by
  simp only [Inline, String.toList_append, List.forall_mem_append]

theorem inline_between {front middle back : String} (before : Inline front)
    (inside : Inline middle) (after : Inline back) : Inline (front ++ middle ++ back) :=
  (inline_append ..).mpr ⟨(inline_append ..).mpr ⟨before, inside⟩, after⟩

theorem inline_join {texts : List String} (each : ∀ text ∈ texts, Inline text) :
    Inline (String.join texts) :=
  join_of_forall (inline_ofList rfl)
    (fun first second => (inline_append ..).mpr ⟨first, second⟩) each

theorem inline_intercalate {separator : String} {texts : List String} (between : Inline separator)
    (each : ∀ text ∈ texts, Inline text) : Inline (separator.intercalate texts) :=
  intercalate_of_forall (inline_ofList rfl)
    (fun first second => (inline_append ..).mpr ⟨first, second⟩) between each

theorem Identifier.continues {name : String} (identifier : Identifier name) {c : Char}
    (member : c ∈ name.toList) : continuesIdentifier c = true := by
  obtain ⟨first, rest, spelling, start, more⟩ := identifier
  rw [spelling] at member
  rw [continuesIdentifier_iff]
  rcases List.mem_cons.mp member with rfl | later
  · rcases start with letter | mark
    · exact .inl letter
    · exact .inr (.inr mark)
  · exact more c later

/-- A character that no identifier has. -/
theorem Identifier.not_mem {name : String} (identifier : Identifier name) {c : Char}
    (foreign : continuesIdentifier c = false) : c ∉ name.toList := by
  intro member
  rw [identifier.continues member] at foreign
  cases foreign

theorem Identifier.inline {name : String} (identifier : Identifier name) : Inline name := by
  intro c member
  constructor
  · rintro rfl
    exact identifier.not_mem (by decide) member
  · rintro rfl
    exact identifier.not_mem (by decide) member

theorem isDigit_of_mem_toString {number : Nat} {c : Char} (member : c ∈ (toString number).toList) :
    c.isDigit = true := by
  rw [Nat.toString_eq_repr, Nat.toList_repr] at member
  exact Nat.isDigit_of_mem_toDigits (by decide) (by decide) member

theorem toString_ne_nil (number : Nat) : (toString number).toList ≠ [] := by
  rw [Nat.toString_eq_repr, Nat.toList_repr]
  exact Nat.toDigits_ne_nil

theorem toList_localName (number : Nat) :
    (localName number).toList = 'n' :: (toString number).toList := String.toList_append

theorem identifier_localName (number : Nat) : Identifier (localName number) := by
  refine ⟨'n', (toString number).toList, toList_localName number, ?_, ?_⟩
  · exact (startsIdentifier_iff 'n').mp (by decide)
  · exact fun c member => .inr (.inl ((isDigit_iff c).mp (isDigit_of_mem_toString member)))

theorem toString_inj {first second : Nat} (same : toString first = toString second) :
    first = second := by
  have digits : Nat.toDigits 10 first = Nat.toDigits 10 second := by
    rw [← Nat.toList_repr, ← Nat.toList_repr, ← Nat.toString_eq_repr, ← Nat.toString_eq_repr, same]
  calc first = Nat.ofDigitChars 10 (Nat.toDigits 10 first) 0 :=
        (Nat.ofDigitChars_toDigits (by decide) (by decide)).symm
    _ = Nat.ofDigitChars 10 (Nat.toDigits 10 second) 0 := by rw [digits]
    _ = second := Nat.ofDigitChars_toDigits (by decide) (by decide)

theorem inline_toString (number : Nat) : Inline (toString number) := by
  intro c member
  have digit := isDigit_of_mem_toString member
  constructor
  · rintro rfl
    cases digit
  · rintro rfl
    cases digit

theorem inline_script (text : String) : Inline (Literal.script text) := by
  intro c member
  obtain ⟨visible, noTag⟩ := Literal.visible_of_mem_script member
  refine ⟨?_, noTag⟩
  rintro rfl
  exact visible (by decide)

namespace Template

theorem inline_localName (number : Nat) : Inline (localName number) := by
  rw [localName, inline_append]
  exact ⟨inline_ofList rfl, inline_toString number⟩

theorem inline_elementLine {element tag setup parent : String} (inElement : Inline element)
    (inTag : Inline tag) (inSetup : Inline setup) (inParent : Inline parent) :
    Inline (elementLine element tag setup parent) := by
  delta elementLine
  simp only [inline_append, and_assoc]
  exact ⟨inline_ofList rfl, inElement, inline_ofList rfl, inTag, inline_ofList rfl, inSetup,
    inParent, inline_ofList rfl, inElement, inline_ofList rfl⟩

theorem inline_line {parent : String} (inParent : Inline parent) (number : Nat)
    (template : Template) (named : template.WellNamed) : Inline (template.line parent number) := by
  have inNumber := inline_localName number
  cases template with
  | field name =>
    apply inline_elementLine inNumber (inline_ofList rfl) _ inParent
    simp only [inline_append, and_assoc]
    exact ⟨inNumber, inline_ofList rfl, inline_script name, inline_ofList rfl⟩
  | button label handler =>
    have inHandler : Inline handler := Identifier.inline named
    have call : Inline (globalCall handler ("row[" ++ Literal.script Schema.keyColumn ++ "]")) := by
      simp only [globalCall, inline_append, and_assoc]
      exact ⟨inline_ofList rfl, inHandler, inline_ofList rfl, inline_ofList rfl, inline_script _,
        inline_ofList rfl, inline_ofList rfl⟩
    apply inline_elementLine inNumber (inline_ofList rfl) _ inParent
    simp only [inline_append, and_assoc]
    exact ⟨inNumber, inline_ofList rfl, inline_script label, inline_ofList rfl, inNumber,
      inline_ofList rfl, call, inline_ofList rfl⟩
  | container direction children =>
    apply inline_elementLine inNumber (inline_ofList rfl) _ inParent
    simp only [inline_append, and_assoc]
    exact ⟨inNumber, inline_ofList rfl, inline_script _, inline_ofList rfl⟩

end Template

theorem inline_renderFunctionName {table : String} (inTable : Inline table) :
    Inline (renderFunctionName table) :=
  (inline_append ..).mpr ⟨inline_ofList rfl, inTable⟩

theorem inline_renderLine {table : String} (inTable : Inline table) : Inline (renderLine table) :=
  (inline_append ..).mpr ⟨inline_renderFunctionName inTable, inline_ofList rfl⟩

theorem inline_lookup (table : String) (slot : Slot) :
    Inline (RenderFunction.lookup table slot) :=
  inline_between (inline_ofList rfl) (inline_script _) (inline_ofList rfl)

theorem inline_inputValue (id : String) : Inline (inputValue id) :=
  inline_between (inline_ofList rfl) (inline_script id) (inline_ofList rfl)

theorem UpdateValue.inline_expression (value : UpdateValue) : Inline value.expression := by
  cases value with
  | literal text => exact inline_script text
  | input id => exact inline_inputValue id

theorem Effect.inline_lines (effect : Effect) (identifier : Identifier effect.table) :
    ∀ line ∈ effect.lines, Inline line := by
  have render : Inline (renderLine effect.table) := inline_renderLine identifier.inline
  cases effect with
  | insert table input =>
    rw [lines, List.forall_mem_singleton]
    simp only [inline_append, and_assoc]
    exact ⟨inline_ofList rfl, inline_script table, inline_ofList rfl, inline_inputValue input,
      inline_ofList rfl⟩
  | render table =>
    rw [lines, List.forall_mem_singleton]
    exact render
  | delete table =>
    rw [lines, List.forall_mem_cons, List.forall_mem_singleton]
    exact ⟨inline_between (inline_ofList rfl) (inline_script table) (inline_ofList rfl), render⟩
  | update table value =>
    rw [lines, List.forall_mem_cons, List.forall_mem_singleton]
    refine ⟨?_, render⟩
    simp only [inline_append, and_assoc]
    exact ⟨inline_ofList rfl, inline_script table, inline_ofList rfl, value.inline_expression,
      inline_ofList rfl⟩

theorem inline_fixedLines : ∀ line ∈ fixedLines, Inline line := by
  delta fixedLines
  simp only [List.forall_mem_cons]
  exact ⟨inline_ofList rfl, inline_ofList rfl, inline_ofList rfl, inline_ofList rfl,
    inline_ofList rfl, inline_ofList rfl, List.forall_mem_nil _⟩

theorem LineShape.inline {line : String} (shape : LineShape line) : Inline line := by
  cases shape with
  | node number hung named =>
    apply Template.inline_line _ number _ named
    rcases hung with rfl | ⟨other, rfl⟩
    · exact inline_ofList rfl
    · exact Template.inline_localName other
  | item number =>
    have inNumber := Template.inline_localName number
    have inSetup : Inline (localName number ++ ".className=\"item\";") :=
      (inline_append ..).mpr ⟨inNumber, inline_ofList rfl⟩
    exact Template.inline_elementLine inNumber (inline_ofList rfl) inSetup (inline_ofList rfl)
  | slot place =>
    exact inline_between (inline_ofList rfl) (inline_toString place) (inline_ofList rfl)
  | slots table slots =>
    apply inline_between (inline_ofList rfl) _ (inline_ofList rfl)
    apply inline_intercalate (inline_ofList rfl)
    exact List.forall_mem_map.mpr fun slot _ => inline_lookup table slot
  | rows query => exact inline_between (inline_ofList rfl) (inline_script query) (inline_ofList rfl)
  | renderFunction identifier =>
    have inName := inline_renderFunctionName identifier.inline
    exact inline_between (inline_ofList rfl) inName (inline_ofList rfl)
  | handler identifier =>
    exact inline_between (inline_ofList rfl) identifier.inline (inline_ofList rfl)
  | effect identifier written => exact Effect.inline_lines _ identifier _ written
  | fixed among => exact inline_fixedLines _ among

theorem Behavior.WellNamed.inline_lines {behavior : Behavior} (named : behavior.WellNamed) :
    ∀ line ∈ behavior.lines, Inline line :=
  fun line member => (named.lineShape line member).inline

namespace Bootstrap

theorem inline_runtimeLines : ∀ line ∈ runtimeLines, Inline line := by
  delta runtimeLines
  simp only [List.forall_mem_cons, inline_append, and_assoc]
  exact ⟨inline_ofList rfl, inline_ofList rfl, inline_ofList rfl, inline_ofList rfl,
    inline_ofList rfl, inline_ofList rfl, inline_ofList rfl, inline_ofList rfl, inline_ofList rfl,
    inline_ofList rfl, inline_ofList rfl, List.forall_mem_nil _⟩

theorem inline_fieldsEntry (table : Schema) : Inline (fieldsEntry table) := by
  have columns : Inline (",".intercalate (table.fields.map Literal.script)) := by
    apply inline_intercalate (inline_ofList rfl)
    intro text member
    obtain ⟨field, -, rfl⟩ := List.mem_map.mp member
    exact inline_script field
  simp only [fieldsEntry, inline_append, and_assoc]
  exact ⟨inline_script table.name, inline_ofList rfl, columns, inline_ofList rfl⟩

theorem inline_createLine (table : Schema) : Inline (createLine table) :=
  inline_between (inline_ofList rfl) (inline_script _) (inline_ofList rfl)

/-- The line that runs when the document is loaded. -/
def startLine (bootstrap : Bootstrap) : String :=
  "window.addEventListener(\"DOMContentLoaded\",async()=>\x7bawait initDB();" ++
    String.join (bootstrap.tables.map fun table => renderLine table.name) ++ "\x7d);"

/-- The lines before those of the runtime. -/
def openingLines (bootstrap : Bootstrap) : List String :=
  ["let DB=null;",
    "const FIELDS=\x7b" ++ ",".intercalate (bootstrap.tables.map fieldsEntry) ++ "\x7d;",
    "async function initDB()\x7b",
    "const SQL=await initSqlJs(\x7blocateFile:f=>" ++ Literal.script bootstrap.store.wasmBase ++
      "+f\x7d);",
    "DB=new SQL.Database();"] ++
    bootstrap.tables.map createLine ++ ["\x7d"]

theorem lines_eq (bootstrap : Bootstrap) :
    bootstrap.lines = bootstrap.openingLines ++ runtimeLines ++ [bootstrap.startLine] := rfl

theorem inline_startLine {bootstrap : Bootstrap}
    (tables : ∀ table ∈ bootstrap.tables, Identifier table.name) : Inline bootstrap.startLine := by
  have calls : Inline (String.join (bootstrap.tables.map fun table => renderLine table.name)) := by
    apply inline_join
    intro text member
    obtain ⟨table, declared, rfl⟩ := List.mem_map.mp member
    exact inline_renderLine (tables table declared).inline
  exact inline_between (inline_ofList rfl) calls (inline_ofList rfl)

theorem inline_openingLines (bootstrap : Bootstrap) :
    ∀ line ∈ bootstrap.openingLines, Inline line := by
  have entries : Inline (",".intercalate (bootstrap.tables.map fieldsEntry)) := by
    apply inline_intercalate (inline_ofList rfl)
    intro text member
    obtain ⟨table, -, rfl⟩ := List.mem_map.mp member
    exact inline_fieldsEntry table
  rw [openingLines, List.forall_mem_append, List.forall_mem_append, List.forall_mem_singleton]
  refine ⟨⟨?_, ?_⟩, inline_ofList rfl⟩
  · simp only [List.forall_mem_cons]
    exact ⟨inline_ofList rfl, inline_between (inline_ofList rfl) entries (inline_ofList rfl),
      inline_ofList rfl, inline_between (inline_ofList rfl) (inline_script _) (inline_ofList rfl),
      inline_ofList rfl, List.forall_mem_nil _⟩
  · intro line member
    obtain ⟨table, -, rfl⟩ := List.mem_map.mp member
    exact inline_createLine table

theorem inline_lines {bootstrap : Bootstrap}
    (tables : ∀ table ∈ bootstrap.tables, Identifier table.name) :
    ∀ line ∈ bootstrap.lines, Inline line := by
  rw [lines_eq, List.forall_mem_append, List.forall_mem_append, List.forall_mem_singleton]
  exact ⟨⟨inline_openingLines bootstrap, inline_runtimeLines⟩, inline_startLine tables⟩

end Bootstrap

theorem lessThan_not_mem_scriptText {lines : List String} (inline : ∀ line ∈ lines, Inline line) :
    '<' ∉ (scriptText lines).toList := by
  intro member
  rw [scriptText, String.toList_join, List.flatMap_map, List.mem_flatMap] at member
  obtain ⟨line, written, occurs⟩ := member
  rw [String.toList_append, List.mem_append] at occurs
  rcases occurs with within | ending
  · exact (inline line written).lessThan_not_mem within
  · revert ending
    decide

/-- The lines of a text. A line feed at the end ends the last line. -/
def linesOf (text : String) : List String :=
  let pieces := (text.toList.splitOn '\n').map String.ofList
  if pieces.getLast? = some "" then pieces.dropLast else pieces

theorem toList_scriptText (lines : List String) :
    (scriptText lines).toList = ['\n'].intercalate (lines.map String.toList ++ [[]]) := by
  induction lines with
  | nil => rfl
  | cons line rest ih =>
    have step : scriptText (line :: rest) = line ++ "\n" ++ scriptText rest := by
      simp [scriptText]
    rw [step, String.toList_append, String.toList_append, ih]
    cases rest <;> simp [List.intercalate]

/-- A script whose lines hold no line feed is read back line by line. -/
theorem linesOf_scriptText {lines : List String} (inline : ∀ line ∈ lines, Inline line) :
    linesOf (scriptText lines) = lines := by
  have apart : ∀ piece ∈ lines.map String.toList ++ [[]], '\n' ∉ piece := by
    intro piece member
    rcases List.mem_append.mp member with written | ending
    · obtain ⟨line, listed, rfl⟩ := List.mem_map.mp written
      exact (inline line listed).lineFeed_not_mem
    · cases List.mem_singleton.mp ending
      exact List.not_mem_nil
  have pieces : ((scriptText lines).toList.splitOn '\n').map String.ofList = lines ++ [""] := by
    rw [toList_scriptText, List.splitOn_intercalate '\n' apart (by simp), List.map_append,
      List.map_map]
    simp [Function.comp_def]
  simp [linesOf, pieces]

end Pagewright
