import Pagewright.Proofs.Checks

set_option autoImplicit false

namespace Pagewright

open Text

def IsLetter (c : Char) : Prop := ('a' ≤ c ∧ c ≤ 'z') ∨ ('A' ≤ c ∧ c ≤ 'Z')

def IsDigit (c : Char) : Prop := '0' ≤ c ∧ c ≤ '9'

/-- Names of the form `[A-Za-z_$][A-Za-z0-9_$]*`. -/
def Identifier (name : String) : Prop :=
  ∃ first rest, name.toList = first :: rest ∧
    (IsLetter first ∨ first = '_' ∨ first = '$') ∧
    ∀ c ∈ rest, IsLetter c ∨ IsDigit c ∨ c = '_' ∨ c = '$'

/-- Identifiers that a script can declare as a global function. -/
def Callable (name : String) : Prop := Identifier name ∧ name ∉ reservedWords

theorem isAlpha_iff (c : Char) : c.isAlpha = true ↔ IsLetter c := by
  have ranges : c.isAlpha = (decide (c.val ≥ 'A'.val ∧ c.val ≤ 'Z'.val) ||
      (c.val ≥ 'a'.val && c.val ≤ 'z'.val)) := rfl
  rw [ranges, Bool.or_eq_true, Bool.and_eq_true]
  simp only [IsLetter, Char.le_def, decide_eq_true_eq]
  exact or_comm

theorem isDigit_iff (c : Char) : c.isDigit = true ↔ IsDigit c := by
  simp only [Char.isDigit, IsDigit, Char.le_def, Bool.and_eq_true, decide_eq_true_eq]

theorem startsIdentifier_iff (c : Char) :
    startsIdentifier c = true ↔ IsLetter c ∨ c = '_' ∨ c = '$' := by
  simp only [startsIdentifier, Bool.or_eq_true, beq_iff_eq, isAlpha_iff, or_assoc]

theorem continuesIdentifier_iff (c : Char) :
    continuesIdentifier c = true ↔ IsLetter c ∨ IsDigit c ∨ c = '_' ∨ c = '$' := by
  simp only [continuesIdentifier, Char.isAlphanum, Bool.or_eq_true, beq_iff_eq, isAlpha_iff,
    isDigit_iff, or_assoc]

theorem isIdentifier_iff (name : String) : isIdentifier name = true ↔ Identifier name := by
  unfold isIdentifier Identifier
  cases name.toList with
  | nil =>
    constructor
    · intro impossible
      cases impossible
    · rintro ⟨first, rest, impossible, -⟩
      cases impossible
  | cons first rest =>
    simp only [Bool.and_eq_true, List.all_eq_true, startsIdentifier_iff, continuesIdentifier_iff]
    constructor
    · rintro ⟨start, more⟩
      exact ⟨first, rest, rfl, start, more⟩
    · rintro ⟨first', rest', same, start, more⟩
      cases same
      exact ⟨start, more⟩

theorem isCallable_iff (name : String) : isCallable name = true ↔ Callable name := by
  simp only [isCallable, Callable, Bool.and_eq_true, Bool.not_eq_true', isIdentifier_iff,
    List.contains_eq_mem, decide_eq_false_iff_not]

theorem isReservedFunction_iff (name : String) :
    isReservedFunction name = true ↔
      name ∈ Bootstrap.runtimeNames ∨ "render_".toList <+: name.toList := by
  have start : renderPrefix = "render_" := by decide
  simp only [isReservedFunction, Bool.or_eq_true, List.contains_eq_mem, decide_eq_true_eq,
    List.isPrefixOf_iff_prefix, start]

theorem checkTableName_eq_ok_iff (name : String) (pos : Position) :
    checkTableName name pos = .ok () ↔ Identifier name := by
  rw [checkTableName, require_eq_ok_iff, isIdentifier_iff]

theorem checkCallable_eq_ok_iff (role : Role) (name : String) (pos : Position) :
    checkCallable role name pos = .ok () ↔ Callable name := by
  rw [checkCallable, require_eq_ok_iff, isCallable_iff]

theorem checkFunctionName_eq_ok_iff (name : String) (pos : Position) :
    checkFunctionName name pos = .ok () ↔
      Callable name ∧ name ∉ Bootstrap.runtimeNames ∧ ¬ "render_".toList <+: name.toList := by
  rw [checkFunctionName, seq_eq_ok_iff, checkCallable_eq_ok_iff, refuse_eq_ok_iff,
    isReservedFunction_iff, not_or]

end Pagewright
