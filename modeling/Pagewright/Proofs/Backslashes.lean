import Mathlib.Data.List.TakeWhile
import Mathlib.Tactic.Push

set_option autoImplicit false

namespace Pagewright

/-- How many backslashes stand at the end of a text. Behind an odd number, the last of them takes
the next character. -/
def trailingBackslashes (text : List Char) : Nat :=
  (text.reverse.takeWhile (· == '\\')).length

theorem trailingBackslashes_append_of_all {text : List Char} (front : List Char)
    (all : ∀ c ∈ text, c = '\\') :
    trailingBackslashes (front ++ text) = text.length + trailingBackslashes front := by
  have passed : ∀ c ∈ text.reverse, (c == '\\') = true :=
    fun c member => beq_iff_eq.mpr (all c (List.mem_reverse.mp member))
  rw [trailingBackslashes, trailingBackslashes, List.reverse_append,
    List.takeWhile_append_of_pos passed, List.length_append, List.length_reverse]

/-- What stands before another character does not count. -/
theorem trailingBackslashes_append {text : List Char} (front : List Char)
    (other : ∃ c ∈ text, c ≠ '\\') :
    trailingBackslashes (front ++ text) = trailingBackslashes text := by
  rw [trailingBackslashes, trailingBackslashes, List.reverse_append, List.takeWhile_append, if_neg]
  intro whole
  obtain ⟨c, member, notBackslash⟩ := other
  have all := List.takeWhile_eq_self_iff.mp ((List.takeWhile_prefix _).eq_of_length whole)
  exact notBackslash (beq_iff_eq.mp (all c (List.mem_reverse.mpr member)))

theorem trailingBackslashes_cons {c : Char} (notBackslash : c ≠ '\\') (text : List Char) :
    trailingBackslashes (c :: text) = trailingBackslashes text := by
  by_cases all : ∀ d ∈ text, d = '\\'
  · have alone : trailingBackslashes [c] = trailingBackslashes [] := by
      simp [trailingBackslashes, notBackslash]
    have first := trailingBackslashes_append_of_all [c] all
    have second := trailingBackslashes_append_of_all [] all
    rw [alone] at first
    exact first.trans second.symm
  · push Not at all
    exact trailingBackslashes_append [c] all

theorem trailingBackslashes_plain {front : List Char} (plain : ∀ c ∈ front, c ≠ '\\')
    (text : List Char) : trailingBackslashes (front ++ text) = trailingBackslashes text := by
  induction front with
  | nil => rfl
  | cons c front ih =>
    obtain ⟨notBackslash, others⟩ := List.forall_mem_cons.mp plain
    rw [List.cons_append, trailingBackslashes_cons notBackslash, ih others]

/-- Two backslashes take one another. -/
theorem trailingBackslashes_pair (text : List Char) :
    trailingBackslashes ('\\' :: '\\' :: text) % 2 = trailingBackslashes text % 2 := by
  by_cases all : ∀ d ∈ text, d = '\\'
  · have first := trailingBackslashes_append_of_all ['\\', '\\'] all
    have second := trailingBackslashes_append_of_all [] all
    have pair : trailingBackslashes ['\\', '\\'] = 2 := by decide
    have none : trailingBackslashes [] = 0 := rfl
    rw [List.cons_append, List.singleton_append] at first
    rw [List.nil_append] at second
    omega
  · push Not at all
    exact congrArg (· % 2) (trailingBackslashes_append ['\\', '\\'] all)

/-- A backslash and the character that it takes leave what follows them as it is. -/
theorem trailingBackslashes_escape (c : Char) (text : List Char) :
    trailingBackslashes ('\\' :: c :: text) % 2 = trailingBackslashes text % 2 := by
  by_cases isBackslash : c = '\\'
  · rw [isBackslash, trailingBackslashes_pair]
  · have other : ∃ d ∈ c :: text, d ≠ '\\' := ⟨c, .head _, isBackslash⟩
    have front : trailingBackslashes ('\\' :: c :: text) = trailingBackslashes (c :: text) :=
      trailingBackslashes_append ['\\'] other
    rw [front, trailingBackslashes_cons isBackslash]

end Pagewright
