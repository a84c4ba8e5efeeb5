import Pagewright.Proofs.Delimiting
import Pagewright.Proofs.ScriptLines

set_option autoImplicit false

namespace Pagewright

open Text

/-- Whether a line begins with a text. -/
def begins (start line : String) : Bool := start.toList.isPrefixOf line.toList

theorem begins_iff (start line : String) :
    begins start line = true ↔ ∃ rest, line = start ++ rest := by
  rw [begins, List.isPrefixOf_iff_prefix]
  constructor
  · rintro ⟨rest, whole⟩
    refine ⟨String.ofList rest, ?_⟩
    rw [← String.toList_inj, String.toList_append, String.toList_ofList, whole]
  · rintro ⟨rest, rfl⟩
    exact ⟨rest.toList, (String.toList_append ..).symm⟩

/-- For fixed texts, which reduce to their characters. -/
theorem begins_ofList {start line : List Char} (front : start.isPrefixOf line = true) :
    begins (String.ofList start) (String.ofList line) = true := by
  rw [begins, String.toList_ofList, String.toList_ofList, front]

theorem begins_append {start front : String} (first : begins start front = true) (back : String) :
    begins start (front ++ back) = true := by
  obtain ⟨rest, rfl⟩ := (begins_iff start front).mp first
  exact (begins_iff ..).mpr ⟨rest ++ back, String.append_assoc ..⟩

theorem begins_self_append (start rest : String) : begins start (start ++ rest) = true :=
  (begins_iff ..).mpr ⟨rest, rfl⟩

/-- The line begins with one of the texts. -/
def BeginsAmong (starts : List String) (line : String) : Prop :=
  ∃ start ∈ starts, begins start line = true

theorem BeginsAmong.mono {starts more : List String} (sub : starts ⊆ more) {line : String}
    (among : BeginsAmong starts line) : BeginsAmong more line := by
  obtain ⟨start, member, first⟩ := among
  exact ⟨start, sub member, first⟩

theorem BeginsAmong.begins_eq_false {starts : List String} {line start : String}
    (among : BeginsAmong starts line)
    (clash : ∀ other ∈ starts, clashes start.toList other.toList = true) :
    begins start line = false := by
  obtain ⟨other, member, first⟩ := among
  rw [Bool.eq_false_iff]
  intro both
  obtain ⟨rest, rfl⟩ := (begins_iff other line).mp first
  obtain ⟨more, same⟩ := (begins_iff start _).mp both
  have chars := congrArg String.toList same
  rw [String.toList_append, String.toList_append] at chars
  exact append_ne_append_of_clashes (clash other member) _ _ chars.symm

/-- Lines that begin otherwise are other lines. -/
theorem BeginsAmong.ne {starts : List String} {line start other : String}
    (among : BeginsAmong starts line) (first : begins start other = true)
    (clash : ∀ other ∈ starts, clashes start.toList other.toList = true) : line ≠ other := by
  rintro rfl
  rw [among.begins_eq_false clash] at first
  cases first

theorem filter_begins_eq_nil {starts lines : List String} {start : String}
    (each : ∀ line ∈ lines, BeginsAmong starts line)
    (clash : ∀ other ∈ starts, clashes start.toList other.toList = true) :
    lines.filter (begins start) = [] := by
  rw [List.filter_eq_nil_iff]
  intro line member
  rw [(each line member).begins_eq_false clash]
  exact Bool.false_ne_true

namespace Template

theorem begins_elementLine (element tag setup parent : String) :
    begins "const " (elementLine element tag setup parent) = true := by
  delta elementLine
  simp only [String.append_assoc]
  exact begins_self_append ..

theorem begins_line (parent : String) (number : Nat) (template : Template) :
    begins "const " (template.line parent number) = true := by
  cases template <;> exact begins_elementLine ..

theorem begins_linesAll (parent : String) (number : Nat) (templates : List Template) :
    ∀ line ∈ linesAll parent number templates, begins "const " line = true := by
  intro text member
  obtain ⟨above, place, node, -, -, rfl⟩ :=
    exists_node_of_mem_linesAll parent number templates member
  exact begins_line above place node

end Template

/-- How the lines of the body of a render function begin. -/
def bodyStarts : List String := ["const ", "slots.", "if(", "rows.", "\x7b", "\x7d"]

namespace Slot

theorem begins_itemsLines (number : Nat) (items : List (List Template)) :
    ∀ line ∈ itemsLines number items, begins "const " line = true := by
  induction items generalizing number with
  | nil => simp [itemsLines]
  | cons item items ih =>
    rw [itemsLines, itemLines, List.forall_mem_append, List.forall_mem_cons]
    exact ⟨⟨Template.begins_elementLine .., Template.begins_linesAll _ _ item⟩, ih _⟩

theorem beginsAmong_linesAll (number place : Nat) (slots : List Slot) :
    ∀ line ∈ linesAll number place slots, BeginsAmong bodyStarts line := by
  induction slots generalizing number place with
  | nil => simp [linesAll]
  | cons slot slots ih =>
    have opening :
        begins "\x7b" ("\x7bconst el=slots[" ++ toString place ++ "];if(el)\x7b") = true :=
      begins_append (begins_append (begins_ofList rfl) _) _
    rw [linesAll, lines, List.forall_mem_append, List.forall_mem_append, List.forall_mem_cons,
      List.forall_mem_singleton]
    refine ⟨⟨⟨⟨"\x7b", by decide, opening⟩, ?_⟩, ⟨"\x7d", by decide, begins_ofList rfl⟩⟩, ih _ _⟩
    intro line member
    exact ⟨"const ", by decide, begins_itemsLines number slot.items line member⟩

end Slot

namespace RenderFunction

/-- The line that opens the function. -/
def opening (function : RenderFunction) : String :=
  "function " ++ renderFunctionName function.table.name ++ "()\x7b"

theorem opening_eq (function : RenderFunction) :
    function.opening = "function render_" ++ function.table.name ++ "()\x7b" := by
  have name : "function " ++ "render_" = "function render_" := ofList_append_ofList rfl
  rw [← name]
  simp only [opening, renderFunctionName, String.append_assoc]

theorem beginsAmong_body (number : Nat) (function : RenderFunction) :
    ∀ line ∈ function.body number, BeginsAmong bodyStarts line := by
  rw [body, List.forall_mem_append, List.forall_mem_append, List.forall_mem_singleton]
  refine ⟨⟨?_, Slot.beginsAmong_linesAll number 0 function.slots⟩,
    ⟨"\x7d", by decide, begins_ofList rfl⟩⟩
  simp only [List.forall_mem_cons]
  exact ⟨⟨"const ", by decide, begins_append (begins_append (begins_ofList rfl) _) _⟩,
    ⟨"slots.", by decide, begins_ofList rfl⟩,
    ⟨"const ", by decide, begins_append (begins_append (begins_ofList rfl) _) _⟩,
    ⟨"if(", by decide, begins_ofList rfl⟩, ⟨"rows.", by decide, begins_ofList rfl⟩,
    List.forall_mem_nil _⟩

/-- Behind the opening of a render function stand the lines of its body and its end. -/
theorem lines_eq_cons (number : Nat) (function : RenderFunction) :
    ∃ rest, function.lines number = function.opening :: rest ∧
      ∀ line ∈ rest, BeginsAmong bodyStarts line := by
  refine ⟨(if function.slots.isEmpty then [] else function.body number) ++ ["\x7d"], rfl, ?_⟩
  rw [List.forall_mem_append, List.forall_mem_singleton]
  refine ⟨?_, ⟨"\x7d", by decide, begins_ofList rfl⟩⟩
  split
  · simp
  · exact beginsAmong_body number function

theorem begins_opening (function : RenderFunction) : begins "function " function.opening = true :=
  begins_append (begins_self_append ..) _

theorem filter_function_linesAll (number : Nat) (functions : List RenderFunction) :
    (linesAll number functions).filter (begins "function ") = functions.map opening := by
  induction functions generalizing number with
  | nil => rfl
  | cons function functions ih =>
    obtain ⟨rest, written, among⟩ := lines_eq_cons number function
    rw [linesAll, written, List.filter_append, List.filter_cons_of_pos (begins_opening function),
      filter_begins_eq_nil among (by decide), ih, List.map_cons, List.cons_append, List.nil_append]

theorem beginsAmong_linesAll (number : Nat) (functions : List RenderFunction) :
    ∀ line ∈ linesAll number functions, BeginsAmong ("function " :: bodyStarts) line := by
  induction functions generalizing number with
  | nil => simp [linesAll]
  | cons function functions ih =>
    obtain ⟨rest, written, among⟩ := lines_eq_cons number function
    rw [linesAll, written, List.forall_mem_append, List.forall_mem_cons]
    refine ⟨⟨⟨"function ", .head _, begins_opening function⟩, ?_⟩, ih _⟩
    intro line member
    exact (among line member).mono (List.subset_cons_self ..)

end RenderFunction

/-- How the lines of effects begin. -/
def effectStarts : List String := ["insert(", "render_", "deleteById(", "updateById("]

theorem begins_renderLine (table : String) : begins "render_" (renderLine table) = true :=
  begins_append (begins_self_append ..) _

/-- A line of an effect shows the table of the effect, or it begins otherwise. -/
theorem Effect.lines_cases (effect : Effect) :
    ∀ line ∈ effect.lines, line = renderLine effect.table ∨
      BeginsAmong ["insert(", "deleteById(", "updateById("] line := by
  cases effect with
  | insert table input =>
    rw [lines, List.forall_mem_singleton]
    simp only [String.append_assoc]
    exact .inr ⟨"insert(", by decide, begins_self_append ..⟩
  | render table =>
    rw [lines, List.forall_mem_singleton]
    exact .inl rfl
  | delete table =>
    rw [lines, List.forall_mem_cons, List.forall_mem_singleton]
    simp only [String.append_assoc]
    exact ⟨.inr ⟨"deleteById(", by decide, begins_self_append ..⟩, .inl rfl⟩
  | update table value =>
    rw [lines, List.forall_mem_cons, List.forall_mem_singleton]
    simp only [String.append_assoc]
    exact ⟨.inr ⟨"updateById(", by decide, begins_self_append ..⟩, .inl rfl⟩

theorem Effect.beginsAmong_lines (effect : Effect) :
    ∀ line ∈ effect.lines, BeginsAmong effectStarts line := by
  intro line member
  rcases effect.lines_cases line member with rfl | other
  · exact ⟨"render_", by decide, begins_renderLine _⟩
  · exact other.mono (by decide)

namespace Handler

/-- The line that opens the function. -/
def opening (handler : Handler) : String := "function " ++ handler.name ++ "(arg)\x7b"

theorem begins_opening (handler : Handler) : begins "function " handler.opening = true :=
  begins_append (begins_self_append ..) _

theorem filter_function_lines (handler : Handler) :
    handler.lines.filter (begins "function ") = [handler.opening] := by
  have effects : ∀ line ∈ handler.effects.flatMap Effect.lines, BeginsAmong effectStarts line := by
    intro line member
    obtain ⟨effect, -, written⟩ := List.mem_flatMap.mp member
    exact effect.beginsAmong_lines line written
  have closing : ∀ line ∈ ["\x7d"], BeginsAmong ["\x7d"] line :=
    List.forall_mem_singleton.mpr ⟨"\x7d", .head _, begins_ofList rfl⟩
  rw [lines, List.filter_append, ← opening, List.filter_cons_of_pos (begins_opening handler),
    filter_begins_eq_nil effects (by decide), filter_begins_eq_nil closing (by decide)]
  rfl

/-- A line of a handler that begins like a call shows the table of an effect. -/
theorem renderLine_of_begins {handler : Handler} {line : String} (written : line ∈ handler.lines)
    (call : begins "render_" line = true) :
    ∃ effect ∈ handler.effects, line = renderLine effect.table := by
  have other : ∀ {starts : List String}, BeginsAmong starts line →
      (∀ start ∈ starts, clashes "render_".toList start.toList = true) → False := by
    intro starts among clash
    rw [among.begins_eq_false clash] at call
    cases call
  rw [lines, List.mem_append, List.mem_cons, List.mem_singleton, List.mem_flatMap] at written
  rcases written with (rfl | ⟨effect, member, inside⟩) | rfl
  · exact (other ⟨_, List.mem_singleton.mpr rfl, begins_opening handler⟩ (by decide)).elim
  · rcases effect.lines_cases line inside with same | among
    · exact ⟨effect, member, same⟩
    · exact (other among (by decide)).elim
  · exact (other ⟨"\x7d", List.mem_singleton.mpr rfl, begins_ofList rfl⟩ (by decide)).elim

end Handler

namespace Behavior

/-- The functions of a script are the render functions and then the handlers. -/
theorem filter_function_lines (behavior : Behavior) :
    behavior.lines.filter (begins "function ") =
      behavior.renderFunctions.map RenderFunction.opening ++
        behavior.handlers.map Handler.opening := by
  have handlers : ∀ handlers : List Handler,
      (handlers.flatMap Handler.lines).filter (begins "function ") =
        handlers.map Handler.opening := by
    intro handlers
    induction handlers with
    | nil => rfl
    | cons handler rest ih =>
      rw [List.flatMap_cons, List.filter_append, handler.filter_function_lines, ih]
      rfl
  rw [lines, List.filter_append, RenderFunction.filter_function_linesAll, handlers]

/-- Only effects show tables again. -/
theorem renderLine_of_begins {behavior : Behavior} {line : String} (written : line ∈ behavior.lines)
    (call : begins "render_" line = true) :
    ∃ handler ∈ behavior.handlers, ∃ effect ∈ handler.effects, line = renderLine effect.table := by
  rw [lines, List.mem_append, List.mem_flatMap] at written
  rcases written with inFunctions | ⟨handler, member, inside⟩
  · have among := RenderFunction.beginsAmong_linesAll 0 _ line inFunctions
    rw [among.begins_eq_false (by decide)] at call
    cases call
  · exact ⟨handler, member, Handler.renderLine_of_begins inside call⟩

end Behavior

namespace Bootstrap

/-- How the lines before the last one begin. -/
def bootstrapStarts : List String := ["let ", "const ", "async ", "DB", "\x7d", "function "]

theorem beginsAmong_openingLines (bootstrap : Bootstrap) :
    ∀ line ∈ bootstrap.openingLines, BeginsAmong bootstrapStarts line := by
  rw [openingLines, List.forall_mem_append, List.forall_mem_append, List.forall_mem_singleton]
  refine ⟨⟨?_, ?_⟩, ⟨"\x7d", by decide, begins_ofList rfl⟩⟩
  · simp only [List.forall_mem_cons]
    exact ⟨⟨"let ", by decide, begins_ofList rfl⟩,
      ⟨"const ", by decide, begins_append (begins_append (begins_ofList rfl) _) _⟩,
      ⟨"async ", by decide, begins_ofList rfl⟩,
      ⟨"const ", by decide, begins_append (begins_append (begins_ofList rfl) _) _⟩,
      ⟨"DB", by decide, begins_ofList rfl⟩, List.forall_mem_nil _⟩
  · intro line member
    obtain ⟨table, -, rfl⟩ := List.mem_map.mp member
    exact ⟨"DB", by decide, begins_append (begins_append (begins_ofList rfl) _) _⟩

theorem beginsAmong_runtimeLines : ∀ line ∈ runtimeLines, BeginsAmong ["function "] line := by
  delta runtimeLines
  simp only [List.forall_mem_cons]
  exact ⟨⟨_, .head _, begins_ofList rfl⟩, ⟨_, .head _, begins_ofList rfl⟩,
    ⟨_, .head _, begins_append (begins_append (begins_ofList rfl) _) _⟩,
    ⟨_, .head _, begins_append (begins_ofList rfl) _⟩,
    ⟨_, .head _, begins_append (begins_ofList rfl) _⟩,
    ⟨_, .head _, begins_append (begins_ofList rfl) _⟩, List.forall_mem_nil _⟩

/-- One line waits for the document. -/
theorem filter_start_lines (bootstrap : Bootstrap) :
    bootstrap.lines.filter (begins "window.addEventListener(") = [bootstrap.startLine] := by
  have start : begins "window.addEventListener(" bootstrap.startLine = true :=
    begins_append (begins_append (begins_ofList rfl) _) _
  rw [lines_eq, List.filter_append, List.filter_append,
    filter_begins_eq_nil (beginsAmong_openingLines bootstrap) (by decide),
    filter_begins_eq_nil beginsAmong_runtimeLines (by decide), List.filter_cons_of_pos start]
  rfl

end Bootstrap

end Pagewright
