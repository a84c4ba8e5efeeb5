set_option autoImplicit false

namespace Pagewright

/-- The text behind a fixed start. -/
def expect (start : String) (text : List Char) : Option (List Char) :=
  if start.toList.isPrefixOf text then some (text.drop start.toList.length) else none

/-- The text before the first mark, and the text from the mark on. -/
def upTo (mark : Char) (text : List Char) : String × List Char :=
  (String.ofList (text.takeWhile fun c => c != mark), text.dropWhile fun c => c != mark)

/-- A run of characters of one kind, before a character of another kind or the end. -/
theorem run_append {inside : Char → Bool} {run rest : List Char}
    (all : ∀ c ∈ run, inside c = true) (stops : ∀ c ∈ rest.head?, inside c = false) :
    (run ++ rest).takeWhile inside = run ∧ (run ++ rest).dropWhile inside = rest := by
  rw [List.takeWhile_append_of_pos all, List.dropWhile_append_of_pos all]
  cases rest with
  | nil => exact ⟨List.append_nil run, rfl⟩
  | cons c rest =>
    have stop : ¬ inside c = true := by simp [stops c rfl]
    rw [List.takeWhile_cons_of_neg stop, List.dropWhile_cons_of_neg stop]
    exact ⟨List.append_nil run, rfl⟩

theorem expect_append (start : String) (rest : List Char) :
    expect start (start.toList ++ rest) = some rest := by
  have front : start.toList.isPrefixOf (start.toList ++ rest) = true :=
    List.isPrefixOf_iff_prefix.mpr (List.prefix_append _ _)
  rw [expect, if_pos front, List.drop_left]

theorem upTo_append {mark : Char} {text : String} (absent : mark ∉ text.toList)
    {rest : List Char} (first : rest.head? = some mark) :
    upTo mark (text.toList ++ rest) = (text, rest) := by
  have passed : ∀ c ∈ text.toList, (c != mark) = true := by
    intro c member
    rw [bne_iff_ne]
    rintro rfl
    exact absent member
  have stops : ∀ c ∈ rest.head?, (c != mark) = false := by
    rintro c found
    cases found.symm.trans first
    exact bne_self_eq_false mark
  have run := run_append passed stops
  rw [upTo, run.1, run.2, String.ofList_toList]

section Numbers

/-- A number in decimal digits, without leading zeros. -/
def readNumber (text : List Char) : Option (Nat × List Char) :=
  let digits := text.takeWhile Char.isDigit
  if digits = [] ∨ digits.head? = some '0' ∧ digits ≠ ['0'] then none
  else some (Nat.ofDigitChars 10 digits 0, text.dropWhile Char.isDigit)

theorem head?_toDigits_ne_zero {number : Nat} (positive : 0 < number) :
    (Nat.toDigits 10 number).head? ≠ some '0' := by
  induction number using Nat.strongRecOn with
  | ind number ih =>
    have single : ∀ digit < 10, 0 < digit → some (Nat.digitChar digit) ≠ some '0' := by decide
    by_cases small : number < 10
    · rw [Nat.toDigits_of_lt_base small, List.head?_cons]
      exact single number small positive
    · have front := ih (number / 10) (by omega) (by omega)
      rw [Nat.toDigits_of_base_le (by decide) (by omega)]
      cases digits : Nat.toDigits 10 (number / 10) with
      | nil => exact absurd digits Nat.toDigits_ne_nil
      | cons c rest =>
        rw [digits] at front
        exact front

theorem readNumber_append (number : Nat) {rest : List Char}
    (stops : ∀ c ∈ rest.head?, c.isDigit = false) :
    readNumber ((toString number).toList ++ rest) = some (number, rest) := by
  have digits : ∀ c ∈ Nat.toDigits 10 number, c.isDigit = true :=
    fun c => Nat.isDigit_of_mem_toDigits (by decide) (by decide)
  have run := run_append digits stops
  have noLeadingZero : ¬ (Nat.toDigits 10 number = [] ∨
      (Nat.toDigits 10 number).head? = some '0' ∧ Nat.toDigits 10 number ≠ ['0']) := by
    rintro (empty | ⟨zero, more⟩)
    · exact Nat.toDigits_ne_nil empty
    · rcases Nat.eq_zero_or_pos number with rfl | positive
      · exact more (Nat.toDigits_zero 10)
      · exact head?_toDigits_ne_zero positive zero
  rw [Nat.toString_eq_repr, Nat.toList_repr, readNumber, run.1, run.2, if_neg noLeadingZero,
    Nat.ofDigitChars_ten_toDigits]

end Numbers

section Repetition

variable {α : Type} {read : List Char → Option (α × List Char)} {write : α → List Char}
  {items : List α} {back : List Char}

/-- One item after another, as long as there is one and the text gets shorter. -/
def readMany (read : List Char → Option (α × List Char)) (text : List Char) :
    List α × List Char :=
  match read text with
  | none => ([], text)
  | some (item, rest) =>
    if rest.length < text.length then
      let (items, back) := readMany read rest
      (item :: items, back)
    else ([], text)
termination_by text.length

theorem readMany_of_none {text : List Char} (stops : read text = none) :
    readMany read text = ([], text) := by
  rw [readMany, stops]

theorem readMany_of_some {text rest : List Char} {item : α} (found : read text = some (item, rest))
    (shorter : rest.length < text.length) :
    readMany read text = (item :: (readMany read rest).1, (readMany read rest).2) := by
  rw [readMany, found]
  exact if_pos shorter

/-- Items are read back from what is written for them if each is before a text of some kind, and
what follows it, another item or the end, is of this kind. -/
theorem readMany_flatMap_before (before : List Char → Prop)
    (reads : ∀ item ∈ items, ∀ rest, before rest → read (write item ++ rest) = some (item, rest))
    (filled : ∀ item ∈ items, write item ≠ []) (stops : read back = none)
    (begins : ∀ item ∈ items, ∀ rest, before (write item ++ rest)) (ends : before back) :
    readMany read (items.flatMap write ++ back) = (items, back) := by
  induction items with
  | nil => exact readMany_of_none stops
  | cons item items ih =>
    obtain ⟨readsItem, readsItems⟩ := List.forall_mem_cons.mp reads
    obtain ⟨filledItem, filledItems⟩ := List.forall_mem_cons.mp filled
    obtain ⟨-, beginsItems⟩ := List.forall_mem_cons.mp begins
    have next : before (items.flatMap write ++ back) := by
      cases items with
      | nil => exact ends
      | cons follower items =>
        rw [List.flatMap_cons, List.append_assoc]
        exact beginsItems follower (.head _) _
    have shorter : (items.flatMap write ++ back).length <
        (write item ++ (items.flatMap write ++ back)).length := by
      have positive := List.length_pos_iff.mpr filledItem
      simp only [List.length_append]
      omega
    rw [List.flatMap_cons, List.append_assoc, readMany_of_some (readsItem _ next) shorter,
      ih readsItems filledItems beginsItems]

/-- Items are read back from what is written for them if each is, whatever follows it. -/
theorem readMany_flatMap
    (reads : ∀ item ∈ items, ∀ rest, read (write item ++ rest) = some (item, rest))
    (filled : ∀ item ∈ items, write item ≠ []) (stops : read back = none) :
    readMany read (items.flatMap write ++ back) = (items, back) :=
  readMany_flatMap_before (fun _ => True) (fun item member rest _ => reads item member rest) filled
    stops (fun _ _ _ => trivial) trivial

end Repetition

/-- Items are read one by one from what is written for each. -/
theorem mapM_map_eq_some {α β γ : Type} {write : α → β} {read : β → Option γ} {kept : α → γ}
    {items : List α} (reads : ∀ item ∈ items, read (write item) = some (kept item)) :
    (items.map write).mapM read = some (items.map kept) := by
  induction items with
  | nil => rfl
  | cons item items ih =>
    obtain ⟨first, others⟩ := List.forall_mem_cons.mp reads
    rw [List.map_cons, List.mapM_cons, first, ih others]
    rfl

end Pagewright
