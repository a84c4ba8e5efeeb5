import Pagewright.Proofs.Layout

set_option autoImplicit false

namespace Pagewright

namespace Position

/-- In the order of reading: on an earlier line, or on the same line further to the left. -/
def Before (first second : Position) : Prop :=
  first.line < second.line ∨ first.line = second.line ∧ first.col < second.col

theorem Before.trans {first second third : Position} (before : first.Before second)
    (later : second.Before third) : first.Before third := by
  unfold Before at *
  omega

theorem Before.ne {first second : Position} (before : first.Before second) : first ≠ second := by
  rintro rfl
  unfold Before at before
  omega

theorem before_advance (pos : Position) (c : Char) : pos.Before (pos.advance c) := by
  unfold advance
  split
  · exact .inl (Nat.lt_succ_self _)
  · exact .inr ⟨rfl, Nat.lt_succ_self _⟩

theorem before_after (pos : Position) (c : Char) (text : List Char) :
    pos.Before (pos.after (c :: text)) := by
  induction text generalizing pos c with
  | nil => exact pos.before_advance c
  | cons d text ih => exact (pos.before_advance c).trans (ih (pos.advance c) d)

/-- Every line feed of a text begins a line. -/
theorem line_after (pos : Position) (text : List Char) :
    (pos.after text).line = pos.line + text.count '\n' := by
  induction text generalizing pos with
  | nil => rfl
  | cons c text ih =>
    rw [after_cons, ih, advance]
    split
    · rename_i isFeed
      rw [isFeed, List.count_cons_self]
      exact Nat.add_right_comm _ _ _
    · rename_i notFeed
      rw [List.count_cons_of_ne notFeed]

end Position

/-- A text cut at a place. The first place is that of its first character. -/
def cutFrom (here pos : Position) : List Char → List Char × List Char
  | [] => ([], [])
  | c :: cs =>
    if here = pos then
      ([], c :: cs)
    else
      let cut := cutFrom (here.advance c) pos cs
      (c :: cut.1, cut.2)

theorem cutFrom_append (here : Position) (front back : List Char) :
    cutFrom here (here.after front) (front ++ back) = (front, back) := by
  induction front generalizing here with
  | nil => cases back <;> simp [cutFrom]
  | cons c front ih =>
    have later := (here.before_after c front).ne
    rw [Position.after_cons] at later
    rw [Position.after_cons, List.cons_append, cutFrom, if_neg later, ih]

/-- What stands before a place of a text. -/
def textBefore (pos : Position) (source : String) : String :=
  String.ofList (cutFrom .start pos source.toList).1

/-- What stands at a place of a text and behind it. -/
def textFrom (pos : Position) (source : String) : String :=
  String.ofList (cutFrom .start pos source.toList).2

section

variable {source : String} {front back : List Char}

theorem textBefore_place (whole : source.toList = front ++ back) :
    textBefore (place front) source = String.ofList front := by
  rw [textBefore, whole, ← start_after, cutFrom_append]

theorem textFrom_place (whole : source.toList = front ++ back) :
    textFrom (place front) source = String.ofList back := by
  rw [textFrom, whole, ← start_after, cutFrom_append]

end

end Pagewright
