import Pagewright.Draft

set_option autoImplicit false

namespace Pagewright

/-- The value, if every item passes the check; otherwise the fault of the first that does not. -/
def passing {α β : Type} (check : α → Walk Unit) (items : List α) (value : β) : Walk β := do
  forM items check
  .ok value

variable {α β γ : Type} (check : α → Walk Unit)

theorem passing_cons (item : α) (items : List α) (value : β) :
    passing check (item :: items) value = check item >>= fun _ => passing check items value := by
  simp only [passing, List.forM_cons, bind_assoc]

theorem passing_bind (items : List α) (value : β) (next : β → Walk γ) :
    passing check items value >>= next = forM items check >>= fun _ => next value := by
  simp only [passing, bind_assoc]
  rfl

theorem passing_append (first second : List α) (value : β) :
    passing check (first ++ second) value =
      forM first check >>= fun _ => passing check second value := by
  simp only [passing, List.forM_append, bind_assoc]

theorem refuse_eq_ok_iff (condition : Prop) [Decidable condition] (diagnostic : Diagnostic) :
    (if condition then .error diagnostic else .ok () : Walk Unit) = .ok () ↔ ¬ condition := by
  by_cases holds : condition
  · simp only [holds, ↓reduceIte, reduceCtorEq, not_true_eq_false]
  · simp only [holds, ↓reduceIte, not_false_eq_true]

theorem require_eq_ok_iff (condition : Prop) [Decidable condition] (diagnostic : Diagnostic) :
    (if condition then .ok () else .error diagnostic : Walk Unit) = .ok () ↔ condition := by
  by_cases holds : condition
  · simp only [holds, ↓reduceIte]
  · simp only [holds, ↓reduceIte, reduceCtorEq]

theorem seq_eq_ok_iff (first : Walk Unit) (next : Walk β) (value : β) :
    (first >>= fun _ => next) = .ok value ↔ first = .ok () ∧ next = .ok value := by
  cases first with
  | error diagnostic =>
    constructor
    · intro success
      cases success
    · rintro ⟨impossible, -⟩
      cases impossible
  | ok _ => exact ⟨fun success => ⟨rfl, success⟩, fun both => both.2⟩

theorem seq_eq_error_iff (first : Walk Unit) (next : Walk β) (diagnostic : Diagnostic) :
    (first >>= fun _ => next) = .error diagnostic ↔
      first = .error diagnostic ∨ first = .ok () ∧ next = .error diagnostic := by
  cases first with
  | error fault =>
    constructor
    · intro failed
      cases failed
      exact .inl rfl
    · rintro (failed | ⟨impossible, -⟩)
      · cases failed
        rfl
      · cases impossible
  | ok _ =>
    constructor
    · intro failed
      exact .inr ⟨rfl, failed⟩
    · rintro (impossible | ⟨-, failed⟩)
      · cases impossible
      · exact failed

theorem forM_eq_ok_iff (items : List α) :
    forM items check = .ok () ↔ ∀ item ∈ items, check item = .ok () := by
  induction items with
  | nil => exact ⟨fun _ _ member => (List.not_mem_nil member).elim, fun _ => rfl⟩
  | cons item items ih => rw [List.forM_cons, seq_eq_ok_iff, List.forall_mem_cons, ih]

/-- Checks that fail, fail as the check of some item does. -/
theorem exists_of_forM_eq_error {items : List α} {diagnostic : Diagnostic}
    (failed : forM items check = .error diagnostic) :
    ∃ item ∈ items, check item = .error diagnostic := by
  induction items with
  | nil => cases failed
  | cons item items ih =>
    rw [List.forM_cons, seq_eq_error_iff] at failed
    rcases failed with first | ⟨-, later⟩
    · exact ⟨item, .head _, first⟩
    · obtain ⟨other, member, failed⟩ := ih later
      exact ⟨other, .tail _ member, failed⟩

end Pagewright
