import Pagewright.Proofs.LineStarts

set_option autoImplicit false

namespace Pagewright

open Text

theorem localName_inj {first second : Nat} (same : localName first = localName second) :
    first = second :=
  toString_inj ((String.append_right_inj _).mp same)

theorem not_mem_localName (number : Nat) {c : Char} (noLetter : c ≠ 'n')
    (noDigit : c.isDigit = false) : c ∉ (localName number).toList := by
  rw [localName, String.toList_append, List.mem_append]
  rintro (letter | digit)
  · exact noLetter (List.mem_singleton.mp letter)
  · rw [isDigit_of_mem_toString digit] at noDigit
    cases noDigit

theorem Direction.className_inj {first second : Direction}
    (same : first.className = second.className) : first = second := by
  cases first <;> cases second <;> first | rfl | exact absurd same (by decide)

namespace Template

/-- The end of a line that hangs a numbered element below a parent. -/
def hanging (parent : String) (number : Nat) : String :=
  parent ++ ".appendChild(" ++ localName number ++ ");"

/-- The line hangs an element below the parent. -/
def HangsOn (parent line : String) : Prop :=
  ∃ front number, Ends ';' front ∧ line = front ++ hanging parent number

theorem HangsOn.unique {parent other line : String} (first : HangsOn parent line)
    (second : HangsOn other line) (plain : ';' ∉ parent.toList) (otherPlain : ';' ∉ other.toList) :
    parent = other := by
  obtain ⟨front, number, ends, rfl⟩ := first
  obtain ⟨otherFront, otherNumber, otherEnds, same⟩ := second
  have call : Ends '(' ".appendChild(" := ends_ofList rfl
  have element : ∀ number, '(' ∉ (localName number ++ ");").toList := by
    intro number
    rw [String.toList_append, List.mem_append, not_or]
    exact ⟨not_mem_localName number (by decide) (by decide), not_mem_ofList rfl⟩
  -- The line is read from its end: first the element, then its parent.
  have parts : ∀ front parent number, front ++ hanging parent number =
      front ++ parent ++ ".appendChild(" ++ (localName number ++ ");") := by
    intro front parent number
    simp only [hanging, String.append_assoc]
  rw [parts, parts] at same
  obtain ⟨fronts, -⟩ := append_inj_behind_mark (call.append _) (call.append _) (element number)
    (element otherNumber) same
  rw [String.append_left_inj] at fronts
  exact (append_inj_behind_mark ends otherEnds plain otherPlain fronts).2

theorem hangsOn_elementLine (number : Nat) (tag parent : String) {setup : String}
    (ends : Ends ';' setup) : HangsOn parent (elementLine (localName number) tag setup parent) := by
  refine ⟨"const " ++ localName number ++ "=document.createElement(\"" ++ tag ++ "\");" ++ setup,
    number, ends.append _, ?_⟩
  delta elementLine hanging
  simp only [String.append_assoc]

/-- The tag of the element that a line makes. -/
def tag : Template → String
  | .field _ => "div"
  | .button _ _ => "button"
  | .container _ _ => "div"

/-- What a line does with its element before it hangs it below the parent. -/
def setup (number : Nat) : Template → String
  | .field name => localName number ++ ".textContent=row[" ++ Literal.script name ++ "];"
  | .button label handler =>
    localName number ++ ".textContent=" ++ Literal.script label ++ ";" ++
      localName number ++ ".onclick=()=>" ++
      globalCall handler ("row[" ++ Literal.script Schema.keyColumn ++ "]") ++ ";"
  | .container direction _ =>
    localName number ++ ".className=" ++ Literal.script direction.className ++ ";"

theorem line_eq (parent : String) (number : Nat) (template : Template) :
    template.line parent number =
      elementLine (localName number) template.tag (template.setup number) parent := by
  cases template <;> rfl

theorem ends_setup (number : Nat) (template : Template) : Ends ';' (template.setup number) := by
  have semicolon : Ends ';' ";" := ends_ofList rfl
  have bracket : Ends ';' "];" := ends_ofList rfl
  cases template with
  | field name => exact bracket.append _
  | button label handler => exact semicolon.append _
  | container direction children => exact semicolon.append _

theorem hangsOn_line (parent : String) (number : Nat) (template : Template) :
    HangsOn parent (template.line parent number) := by
  rw [line_eq]
  exact hangsOn_elementLine number _ _ (ends_setup number template)

/-- Lines of one element below one parent differ in the tag or in the setup. -/
theorem elementLine_inj {element parent tag setup otherTag otherSetup : String}
    (same : elementLine element tag setup parent = elementLine element otherTag otherSetup parent) :
    tag ++ ("\");" ++ setup) = otherTag ++ ("\");" ++ otherSetup) := by
  delta elementLine at same
  simp only [String.append_left_inj] at same
  simp only [String.append_assoc, String.append_right_inj] at same
  exact same

/-- A template without what stands below its root. -/
def shell : Template → Template
  | .field name => .field name
  | .button label handler => .button label handler
  | .container direction _ => .container direction []

/-- A line gives back the node that it is for. -/
theorem line_inj {parent : String} {number : Nat} {first second : Template}
    (same : first.line parent number = second.line parent number) : first.shell = second.shell := by
  rw [line_eq, line_eq] at same
  have setups := elementLine_inj same
  cases first with
  | field name =>
    cases second with
    | field other =>
      simp only [tag, setup, String.append_assoc, String.append_right_inj] at setups
      rw [(Literal.script_append_inj setups).1]
    | button label handler => exact (ofList_append_ne rfl _ _ setups).elim
    | container direction children =>
      simp only [tag, setup, String.append_assoc, String.append_right_inj] at setups
      exact (ofList_append_ne rfl _ _ setups).elim
  | button label handler =>
    cases second with
    | field name => exact (ofList_append_ne rfl _ _ setups).elim
    | button otherLabel other =>
      simp only [tag, setup, globalCall, String.append_assoc, String.append_right_inj] at setups
      obtain ⟨rfl, rests⟩ := Literal.script_append_inj setups
      simp only [String.append_right_inj, String.append_left_inj] at rests
      rw [rests]
    | container direction children => exact (ofList_append_ne rfl _ _ setups).elim
  | container direction children =>
    cases second with
    | field name =>
      simp only [tag, setup, String.append_assoc, String.append_right_inj] at setups
      exact (ofList_append_ne rfl _ _ setups).elim
    | button label handler => exact (ofList_append_ne rfl _ _ setups).elim
    | container other otherChildren =>
      simp only [tag, setup, String.append_assoc, String.append_right_inj] at setups
      rw [shell, shell, Direction.className_inj (Literal.script_append_inj setups).1]

/-- The first of the lines hangs below no numbered element from the given number on. -/
def Clear (number : Nat) (lines : List String) : Prop :=
  ∀ line, lines.head? = some line → ∀ other, number ≤ other → ¬ HangsOn (localName other) line

theorem Clear.mono {number later : Nat} {lines : List String} (clear : Clear number lines)
    (ordered : number ≤ later) : Clear later lines := by
  intro line first other above
  exact clear line first other (Nat.le_trans ordered above)

theorem lines_eq_cons (parent : String) (number : Nat) (template : Template) :
    ∃ rest, template.lines parent number = template.line parent number :: rest := by
  cases template <;> exact ⟨_, rfl⟩

theorem linesAll_cons_head (parent : String) (number : Nat) (template : Template)
    (rest : List Template) (after : List String) :
    ∃ line, (linesAll parent number (template :: rest) ++ after).head? = some line ∧
      HangsOn parent line := by
  obtain ⟨inner, written⟩ := lines_eq_cons parent number template
  rw [linesAll, written]
  exact ⟨_, rfl, hangsOn_line parent number template⟩

/-- Below a parent with a smaller number nothing hangs on the numbers from the given one on. -/
theorem clear_linesAll {parent number : Nat} (smaller : parent < number) (start : Nat)
    (templates : List Template) {after : List String} (clear : Clear number after) :
    Clear number (linesAll (localName parent) start templates ++ after) := by
  cases templates with
  | nil => exact clear
  | cons template rest =>
    obtain ⟨head, starts, below⟩ := linesAll_cons_head (localName parent) start template rest after
    intro line first other above hangs
    rw [starts] at first
    cases Option.some.inj first
    have same := hangs.unique below (not_mem_localName other (by decide) (by decide))
      (not_mem_localName parent (by decide) (by decide))
    have equal := localName_inj same
    omega

mutual

theorem lines_append_inj {parent : String} {number : Nat} :
    (first second : Template) → {after behind : List String} →
    Clear number after → Clear number behind →
    first.lines parent number ++ after = second.lines parent number ++ behind →
    first = second ∧ after = behind
  | .field name, second, _, _, _, _, same => by
    cases second with
    | field other =>
      obtain ⟨heads, rests⟩ := List.cons.inj same
      exact ⟨line_inj heads, rests⟩
    | button label handler => cases line_inj (List.cons.inj same).1
    | container direction children => cases line_inj (List.cons.inj same).1
  | .button label handler, second, _, _, _, _, same => by
    cases second with
    | field name => cases line_inj (List.cons.inj same).1
    | button otherLabel other =>
      obtain ⟨heads, rests⟩ := List.cons.inj same
      exact ⟨line_inj heads, rests⟩
    | container direction children => cases line_inj (List.cons.inj same).1
  | .container direction children, second, _, _, clear, clearBehind, same => by
    cases second with
    | field name => cases line_inj (List.cons.inj same).1
    | button label handler => cases line_inj (List.cons.inj same).1
    | container other others =>
      obtain ⟨heads, rests⟩ := List.cons.inj same
      cases line_inj heads
      obtain ⟨rfl, backs⟩ :=
        linesAll_append_inj (Nat.lt_succ_self number) children others clear clearBehind rests
      exact ⟨rfl, backs⟩

/-- The lines of templates below one parent give back the templates, if the next line hangs neither
below this parent nor below an element of the templates. -/
theorem linesAll_append_inj {parent number : Nat} (smaller : parent < number) :
    (first second : List Template) → {after behind : List String} →
    Clear parent after → Clear parent behind →
    linesAll (localName parent) number first ++ after =
      linesAll (localName parent) number second ++ behind →
    first = second ∧ after = behind
  | [], [], _, _, _, _, same => ⟨rfl, same⟩
  | [], template :: rest, after, behind, clear, _, same => by
    obtain ⟨line, first, hangs⟩ := linesAll_cons_head (localName parent) number template rest behind
    rw [← same] at first
    exact (clear line first parent (Nat.le_refl _) hangs).elim
  | template :: rest, [], after, behind, _, clear, same => by
    obtain ⟨line, first, hangs⟩ := linesAll_cons_head (localName parent) number template rest after
    rw [same] at first
    exact (clear line first parent (Nat.le_refl _) hangs).elim
  | template :: rest, other :: others, after, behind, clear, clearBehind, same => by
    -- The siblings hang below the parent, whose number is smaller than all numbers from here on; so
    -- the children of the first template stop where its siblings begin.
    have ordered := Nat.le_of_lt smaller
    rw [linesAll, linesAll, List.append_assoc, List.append_assoc] at same
    obtain ⟨rfl, rests⟩ := lines_append_inj template other
      (clear_linesAll smaller _ rest (clear.mono ordered))
      (clear_linesAll smaller _ others (clearBehind.mono ordered)) same
    have later : parent < number + template.size := Nat.lt_of_lt_of_le smaller (Nat.le_add_right ..)
    obtain ⟨rfl, backs⟩ := linesAll_append_inj later rest others clear clearBehind rests
    exact ⟨rfl, backs⟩

end

end Template

namespace Slot

open Template

/-- The line of the element of an item. -/
def itemLine (number : Nat) : String :=
  elementLine (localName number) "div" (localName number ++ ".className=\"item\";") "el"

theorem hangsOn_itemLine (number : Nat) : HangsOn "el" (itemLine number) := by
  have setup : Ends ';' ".className=\"item\";" := ends_ofList rfl
  exact hangsOn_elementLine number "div" "el" (setup.append _)

theorem itemLine_ne_closing (number : Nat) : itemLine number ≠ "\x7d\x7d" := by
  intro same
  have first := begins_elementLine (localName number) "div"
    (localName number ++ ".className=\"item\";") "el"
  rw [← itemLine, same] at first
  exact absurd first (by decide)

/-- What follows an item is the next item or the end of the slot. -/
theorem clear_itemsLines (number start : Nat) (items : List (List Template)) (after : List String) :
    Clear number (itemsLines start items ++ "\x7d\x7d" :: after) := by
  intro line first other _ hangs
  cases items with
  | nil =>
    cases Option.some.inj first
    obtain ⟨front, element, -, whole⟩ := hangs
    have ends : Ends ';' (front ++ hanging (localName other) element) :=
      ((ends_ofList rfl : Ends ';' ");").append _).append _
    have brace : Ends '\x7d' "\x7d\x7d" := ends_ofList rfl
    exact brace.ne ends (by decide) whole
  | cons item items =>
    cases Option.some.inj first
    have same := hangs.unique (hangsOn_itemLine start)
      (not_mem_localName other (by decide) (by decide)) (by decide)
    exact ((heads_ofList rfl : Heads 'n' "n").append _).ne (heads_ofList rfl : Heads 'e' "el")
      (by decide) same

/-- The lines of the items of a slot give back the items. -/
theorem itemsLines_append_inj (number : Nat) (first second : List (List Template))
    {after behind : List String}
    (same : itemsLines number first ++ "\x7d\x7d" :: after =
      itemsLines number second ++ "\x7d\x7d" :: behind) :
    first = second ∧ after = behind := by
  induction first generalizing number second with
  | nil =>
    cases second with
    | nil => exact ⟨rfl, (List.cons.inj same).2⟩
    | cons item items => exact (itemLine_ne_closing number (List.cons.inj same).1.symm).elim
  | cons item items ih =>
    cases second with
    | nil => exact (itemLine_ne_closing number (List.cons.inj same).1).elim
    | cons other others =>
      rw [itemsLines, itemsLines, itemLines, itemLines, List.append_assoc, List.append_assoc,
        List.cons_append, List.cons_append] at same
      obtain ⟨rfl, rests⟩ := linesAll_append_inj (Nat.lt_succ_self number) item other
        (clear_itemsLines _ _ items after) (clear_itemsLines _ _ others behind)
        (List.cons.inj same).2
      obtain ⟨rfl, backs⟩ := ih _ others rests
      exact ⟨rfl, backs⟩

/-- The lines of slots with known numbers give back the slots. -/
theorem linesAll_append_inj (number place : Nat) (first second : List Slot)
    {after behind : List String} (indices : first.map index = second.map index)
    (same : linesAll number place first ++ after = linesAll number place second ++ behind) :
    first = second ∧ after = behind := by
  induction first generalizing number place second with
  | nil =>
    cases second with
    | nil => exact ⟨rfl, same⟩
    | cons => cases indices
  | cons slot slots ih =>
    cases second with
    | nil => cases indices
    | cons other others =>
      obtain ⟨index, items⟩ := slot
      obtain ⟨otherIndex, otherItems⟩ := other
      obtain ⟨heads, tails⟩ := List.cons.inj indices
      simp only [linesAll, lines, List.append_assoc, List.cons_append, List.nil_append] at same
      obtain ⟨rfl, rests⟩ := itemsLines_append_inj number items otherItems (List.cons.inj same).2
      obtain ⟨rfl, backs⟩ := ih _ _ others tails rests
      cases heads
      exact ⟨rfl, backs⟩

end Slot

end Pagewright
