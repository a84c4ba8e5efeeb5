import Pagewright.Proofs.TemplateText

set_option autoImplicit false

namespace Pagewright

open Text

namespace Bootstrap

theorem selfDelimiting_fieldsEntry : SelfDelimiting (fun _ => True) fieldsEntry := by
  have columns := selfDelimiting_script.intercalate heads_script (heads_ofList rfl : Heads ']' "]")
    (by decide) (by decide)
  rintro ⟨name, fields⟩ ⟨other, others⟩ after behind _ _ same
  simp only [fieldsEntry, String.append_assoc] at same
  obtain ⟨rfl, rests⟩ := Literal.script_append_inj same
  rw [String.append_right_inj, ← String.append_assoc, ← String.append_assoc] at rests
  obtain ⟨rfl, backs⟩ := columns fields others after behind (fun _ _ => trivial)
    (fun _ _ => trivial) rests
  exact ⟨rfl, backs⟩

theorem heads_fieldsEntry (table : Schema) : Heads '"' (fieldsEntry table) := by
  simp only [fieldsEntry, String.append_assoc]
  exact (heads_script table.name).append _

/-- The line of the columns gives back the tables. -/
theorem tables_inj {first second : Bootstrap} (same : first.lines = second.lines) :
    first.tables = second.tables := by
  have line := (List.cons.inj (List.cons.inj same).2).1
  rw [String.append_assoc, String.append_assoc, String.append_right_inj] at line
  have entries := selfDelimiting_fieldsEntry.intercalate heads_fieldsEntry
    (heads_ofList rfl : Heads '\x7d' "\x7d;") (by decide) (by decide)
  exact entries.inj (fun _ _ => trivial) (fun _ _ => trivial) line

end Bootstrap

theorem Slot.selector_inj {table : String} {first second : Nat}
    (same : selector table first = selector table second) : first = second := by
  delta selector at same
  simp only [String.append_left_inj, String.append_right_inj] at same
  exact toString_inj same

namespace RenderFunction

/-- How the place of a list is found, by the number of the list. -/
def lookupAt (table : String) (index : Nat) : String :=
  "document.querySelector(" ++ Literal.script (Slot.selector table index) ++ ")"

theorem selfDelimiting_lookupAt (table : String) :
    SelfDelimiting (fun _ => True) (lookupAt table) := by
  intro first second after behind _ _ same
  delta lookupAt at same
  simp only [String.append_assoc, String.append_right_inj] at same
  obtain ⟨selectors, rests⟩ := Literal.script_append_inj same
  exact ⟨Slot.selector_inj selectors, (String.append_right_inj _).mp rests⟩

/-- The line that finds the places of all lists of a table. -/
def slotsLine (table : String) (slots : List Slot) : String :=
  "const slots=[" ++ ",".intercalate (slots.map (lookup table)) ++ "];"

theorem slotsLine_inj {table : String} {first second : List Slot}
    (same : slotsLine table first = slotsLine table second) :
    first.map Slot.index = second.map Slot.index := by
  have begins : ∀ index, Heads 'd' (lookupAt table index) := by
    intro index
    delta lookupAt
    rw [String.append_assoc]
    exact (heads_ofList rfl : Heads 'd' "document.querySelector(").append _
  have lookups := (selfDelimiting_lookupAt table).intercalate begins
    (heads_ofList rfl : Heads ']' "];") (by decide) (by decide)
  have byIndex : ∀ slots : List Slot,
      slots.map (lookup table) = (slots.map Slot.index).map (lookupAt table) := by
    intro slots
    rw [List.map_map]
    rfl
  rw [slotsLine, slotsLine, String.append_assoc, String.append_assoc, String.append_right_inj,
    byIndex, byIndex] at same
  exact lookups.inj (fun _ _ => trivial) (fun _ _ => trivial) same

/-- The lines between the places of the lists and the items, which are for all lists together. -/
def rowsLines (table : Schema) : List String :=
  ["slots.forEach(el=>\x7bif(el)el.innerHTML=\"\";\x7d);",
    "const rows=queryRows(" ++ Literal.script table.select ++ ");",
    "if(!rows.length)return;",
    "rows.forEach(row=>\x7b"]

theorem lines_nil (number : Nat) (table : Schema) :
    lines number ⟨table, []⟩ = [opening ⟨table, []⟩, "\x7d"] := rfl

theorem lines_cons (number : Nat) (table : Schema) (slot : Slot) (slots : List Slot) :
    lines number ⟨table, slot :: slots⟩ =
      opening ⟨table, slot :: slots⟩ :: slotsLine table.name (slot :: slots) ::
        (rowsLines table ++ (Slot.linesAll number 0 (slot :: slots) ++ ["\x7d);", "\x7d"])) := by
  change opening _ :: ((slotsLine table.name (slot :: slots) :: rowsLines table) ++
    Slot.linesAll number 0 (slot :: slots) ++ ["\x7d);"] ++ ["\x7d"]) = _
  rw [List.append_assoc, List.append_assoc]
  rfl

/-- The lines of the render function of a known table give back its slots. -/
theorem lines_append_inj (number : Nat) {first second : RenderFunction}
    {after behind : List String} (tables : first.table = second.table)
    (same : first.lines number ++ after = second.lines number ++ behind) :
    first = second ∧ after = behind := by
  obtain ⟨table, slots⟩ := first
  obtain ⟨other, others⟩ := second
  cases tables
  have begins : ∀ slots, Heads 'c' (slotsLine table.name slots) := by
    intro slots
    delta slotsLine
    rw [String.append_assoc]
    exact (heads_ofList rfl : Heads 'c' "const slots=[").append _
  have brace : Heads '\x7d' "\x7d" := heads_ofList rfl
  -- A function without slots ends at once, any other goes on with the places of its lists.
  cases slots with
  | nil =>
    cases others with
    | nil => exact ⟨rfl, List.append_cancel_left same⟩
    | cons slot others =>
      rw [lines_nil, lines_cons] at same
      have lines := (List.cons.inj (List.cons.inj same).2).1
      exact (brace.ne (begins _) (by decide) lines).elim
  | cons slot slots =>
    cases others with
    | nil =>
      rw [lines_nil, lines_cons] at same
      have lines := (List.cons.inj (List.cons.inj same).2).1
      exact ((begins _).ne brace (by decide) lines).elim
    | cons other others =>
      rw [lines_cons, lines_cons] at same
      simp only [List.cons_append, List.append_assoc, List.nil_append] at same
      obtain ⟨lookups, rests⟩ := List.cons.inj (List.cons.inj same).2
      obtain ⟨slotLists, backs⟩ := Slot.linesAll_append_inj number 0 _ _ (slotsLine_inj lookups)
        (List.append_cancel_left rests)
      exact ⟨by rw [slotLists], (List.cons.inj (List.cons.inj backs).2).2⟩

/-- The lines of the render functions of known tables give back the functions. -/
theorem linesAll_append_inj (number : Nat) {first second : List RenderFunction}
    {after behind : List String} (tables : first.map table = second.map table)
    (same : linesAll number first ++ after = linesAll number second ++ behind) :
    first = second ∧ after = behind := by
  induction first generalizing number second with
  | nil =>
    cases second with
    | nil => exact ⟨rfl, same⟩
    | cons => cases tables
  | cons function functions ih =>
    cases second with
    | nil => cases tables
    | cons other others =>
      obtain ⟨heads, tails⟩ := List.cons.inj tables
      rw [linesAll, linesAll, List.append_assoc, List.append_assoc] at same
      obtain ⟨rfl, rests⟩ := lines_append_inj number heads same
      obtain ⟨rfl, backs⟩ := ih _ tails rests
      exact ⟨rfl, backs⟩

end RenderFunction

theorem inputValue_append_inj {first second after behind : String}
    (same : inputValue first ++ after = inputValue second ++ behind) :
    first = second ∧ after = behind := by
  delta inputValue at same
  simp only [String.append_assoc, String.append_right_inj] at same
  obtain ⟨ids, rests⟩ := Literal.script_append_inj same
  exact ⟨ids, (String.append_right_inj _).mp rests⟩

theorem heads_inputValue (id : String) : Heads 'd' (inputValue id) := by
  delta inputValue
  rw [String.append_assoc]
  exact (heads_ofList rfl : Heads 'd' "document.getElementById(").append _

theorem UpdateValue.selfDelimiting_expression :
    SelfDelimiting (fun _ => True) UpdateValue.expression := by
  intro first second after behind _ _ same
  cases first with
  | literal text =>
    cases second with
    | literal other =>
      obtain ⟨rfl, rests⟩ := Literal.script_append_inj same
      exact ⟨rfl, rests⟩
    | input id =>
      have heads := ((heads_script text).append after).ne ((heads_inputValue id).append behind)
      exact (heads (by decide) same).elim
  | input id =>
    cases second with
    | literal text =>
      have heads := ((heads_inputValue id).append after).ne ((heads_script text).append behind)
      exact (heads (by decide) same).elim
    | input other =>
      obtain ⟨rfl, rests⟩ := inputValue_append_inj same
      exact ⟨rfl, rests⟩

theorem renderLine_inj {first second : String} (same : renderLine first = renderLine second) :
    first = second := by
  rw [renderLine, renderLine, renderFunctionName, renderFunctionName, String.append_left_inj,
    String.append_right_inj] at same
  exact same

namespace Effect

/-- The first line of an effect, which names its kind. -/
def firstLine : Effect → String
  | .insert table input =>
    "insert(" ++ (Literal.script table ++ ("," ++ (inputValue input ++ ");")))
  | .render table => renderLine table
  | .delete table => "deleteById(" ++ (Literal.script table ++ ",arg);")
  | .update table value =>
    "updateById(" ++ (Literal.script table ++ (",arg," ++ (value.expression ++ ");")))

/-- Behind its first line an effect shows its table again, if it changes a row by its key. -/
def moreLines : Effect → List String
  | .insert _ _ => []
  | .render _ => []
  | .delete table => [renderLine table]
  | .update table _ => [renderLine table]

theorem lines_eq (effect : Effect) : effect.lines = effect.firstLine :: effect.moreLines := by
  cases effect <;> simp only [lines, firstLine, moreLines, String.append_assoc]

/-- The character by which the kind of an effect is known. -/
def mark : Effect → Char
  | .insert _ _ => 'i'
  | .render _ => 'r'
  | .delete _ => 'd'
  | .update _ _ => 'u'

theorem heads_firstLine (effect : Effect) : Heads effect.mark effect.firstLine := by
  cases effect with
  | insert table input => exact (heads_ofList rfl : Heads 'i' "insert(").append _
  | render table => exact ((heads_ofList rfl : Heads 'r' "render_").append _).append _
  | delete table => exact (heads_ofList rfl : Heads 'd' "deleteById(").append _
  | update table value => exact (heads_ofList rfl : Heads 'u' "updateById(").append _

theorem firstLine_inj {first second : Effect} (same : first.firstLine = second.firstLine) :
    first = second := by
  have marks : first.mark = second.mark := by
    by_contra differ
    exact (heads_firstLine first).ne (heads_firstLine second) differ same
  cases first with
  | insert table input =>
    cases second with
    | insert other otherInput =>
      simp only [firstLine, String.append_right_inj] at same
      obtain ⟨rfl, rests⟩ := Literal.script_append_inj same
      obtain ⟨rfl, -⟩ := inputValue_append_inj ((String.append_right_inj _).mp rests)
      rfl
    | _ => simp [mark] at marks
  | render table =>
    cases second with
    | render other => rw [renderLine_inj same]
    | _ => simp [mark] at marks
  | delete table =>
    cases second with
    | delete other =>
      simp only [firstLine, String.append_right_inj] at same
      rw [(Literal.script_append_inj same).1]
    | _ => simp [mark] at marks
  | update table value =>
    cases second with
    | update other otherValue =>
      simp only [firstLine, String.append_right_inj] at same
      obtain ⟨rfl, rests⟩ := Literal.script_append_inj same
      obtain ⟨rfl, -⟩ := UpdateValue.selfDelimiting_expression _ _ _ _ trivial trivial
        ((String.append_right_inj _).mp rests)
      rfl
    | _ => simp [mark] at marks

theorem selfDelimiting_lines : SelfDelimiting (fun _ => True) lines := by
  intro first second after behind _ _ same
  rw [lines_eq, lines_eq] at same
  obtain ⟨heads, tails⟩ := List.cons.inj same
  cases firstLine_inj heads
  exact ⟨rfl, List.append_cancel_left tails⟩

end Effect

namespace Handler

theorem selfDelimiting_lines : SelfDelimiting (fun _ => True) lines := by
  have closed : SelfDelimiting (fun effects => ∀ effect ∈ effects, True)
      fun effects : List Effect => effects.flatMap Effect.lines ++ ["\x7d"] := by
    apply Effect.selfDelimiting_lines.flatMap_closed
    intro effect _ after behind same
    rw [Effect.lines_eq] at same
    have noBrace : effect.mark ≠ '\x7d' := by cases effect <;> simp [Effect.mark]
    exact effect.heads_firstLine.ne (heads_ofList rfl) noBrace (List.cons.inj same).1
  rintro ⟨name, effects⟩ ⟨other, others⟩ after behind _ _ same
  obtain ⟨openings, tails⟩ := List.cons.inj same
  rw [String.append_left_inj, String.append_right_inj] at openings
  obtain ⟨rfl, backs⟩ := closed effects others after behind (fun _ _ => trivial)
    (fun _ _ => trivial) tails
  cases openings
  exact ⟨rfl, backs⟩

end Handler

/-- The lines of a behavior whose tables are known give back its functions. -/
theorem Behavior.lines_inj {first second : Behavior}
    (tables : first.renderFunctions.map RenderFunction.table =
      second.renderFunctions.map RenderFunction.table)
    (same : first.lines = second.lines) : first = second := by
  obtain ⟨functions, handlers⟩ := first
  obtain ⟨otherFunctions, otherHandlers⟩ := second
  obtain ⟨rfl, rests⟩ := RenderFunction.linesAll_append_inj 0 tables same
  have filled : ∀ handler : Handler, True → handler.lines ≠ [] :=
    fun handler _ => List.cons_ne_nil _ _
  have equal := Handler.selfDelimiting_lines.flatMap_injective filled (fun _ _ => trivial)
    (fun _ _ => trivial) rests
  cases equal
  rfl

end Pagewright
