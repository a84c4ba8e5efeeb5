import Pagewright.Proofs.Literals

set_option autoImplicit false

namespace Pagewright.Text.Literal

/-- A character above the control characters that opens no tag. -/
def Visible (c : Char) : Prop := ¬ c.toNat < 0x20 ∧ c ≠ '<'

instance (c : Char) : Decidable (Visible c) :=
  inferInstanceAs (Decidable (¬ c.toNat < 0x20 ∧ c ≠ '<'))

theorem visible_of_all {text : List Char}
    (each : (text.all fun c => decide (Visible c)) = true) : ∀ c ∈ text, Visible c :=
  fun c member => of_decide_eq_true (List.all_eq_true.mp each c member)

section Guarding

variable {piece body chars literal : List Char} {text : String} {c : Char}

theorem visible_of_mem_guardTag (visible : ¬ c.toNat < 0x20) : ∀ d ∈ guardTag c, Visible d := by
  unfold guardTag
  split
  · exact visible_of_all (by decide)
  · rename_i noTag
    exact List.forall_mem_singleton.mpr ⟨visible, noTag⟩

theorem guardTag_of_not_mem (absent : '<' ∉ piece) : piece.flatMap guardTag = piece := by
  induction piece with
  | nil => rfl
  | cons d piece ih =>
    rw [List.mem_cons, not_or] at absent
    rw [List.flatMap_cons, guardTag, if_neg (Ne.symm absent.1), ih absent.2]
    rfl

/-- No escape holds the character that opens tags, so only that character itself is changed. -/
theorem Denotes.guard (denotes : Denotes piece c) : Denotes (piece.flatMap guardTag) c := by
  by_cases tag : '<' ∈ piece
  · obtain ⟨rfl, rfl⟩ := denotes.eq_of_lessThan_mem tag
    exact .unit (digits_byte (by decide : '<'.toNat < 0x100))
  · rwa [guardTag_of_not_mem tag]

theorem Encodes.guard (encodes : Encodes body chars) : Encodes (body.flatMap guardTag) chars := by
  induction encodes with
  | nil => exact .nil
  | cons denotes more ih =>
    rw [List.flatMap_append]
    exact .cons denotes.guard ih

/-- The reader gives back the text of a literal in which tags are guarded, whatever follows it. -/
theorem read_guard (found : read literal = some (text, [])) (rest : List Char) :
    read (literal.flatMap guardTag ++ rest) = some (text, rest) := by
  obtain ⟨body, rfl, encodes⟩ := read_eq_some_iff.mp found
  refine read_eq_some_iff.mpr ⟨_, ?_, encodes.guard⟩
  have quote : guardTag '"' = ['"'] := rfl
  simp [quote]

theorem visible_guard (found : read literal = some (text, [])) :
    ∀ c ∈ literal.flatMap guardTag, Visible c := by
  obtain ⟨body, rfl, encodes⟩ := read_eq_some_iff.mp found
  have quote : ¬ '"'.toNat < 0x20 := by decide
  have all : ∀ d ∈ '"' :: (body ++ ['"']), ¬ d.toNat < 0x20 := by
    rw [List.forall_mem_cons, List.forall_mem_append, List.forall_mem_singleton]
    exact ⟨quote, encodes.visible, quote⟩
  intro c member
  obtain ⟨d, written, occurs⟩ := List.mem_flatMap.mp member
  exact visible_of_mem_guardTag (all d written) c occurs

end Guarding

/-- How one character of a text is written in a script. -/
def spelling (c : Char) : List Char := (escape c).flatMap guardTag

theorem denotes_spelling (c : Char) : Denotes (spelling c) c := (denotes_escape c).guard

theorem toList_script_eq (text : String) :
    (script text).toList = '"' :: (text.toList.flatMap spelling ++ ['"']) := by
  rw [toList_script, toList_quote, List.flatMap_cons, List.flatMap_append, List.flatMap_assoc]
  rfl

/-- The reader gives back the text of a literal, whatever follows it. -/
theorem read_script (text : String) (rest : List Char) :
    read ((script text).toList ++ rest) = some (text, rest) := by
  rw [toList_script]
  exact read_guard (read_quote_alone text) rest

/-- Texts that begin with literals agree on the literals and behind them. -/
theorem script_append_inj {first second after behind : String}
    (same : script first ++ after = script second ++ behind) : first = second ∧ after = behind := by
  have left := read_script first after.toList
  have right := read_script second behind.toList
  rw [← String.toList_append, same, String.toList_append, right] at left
  obtain ⟨texts, rests⟩ := Prod.mk.inj (Option.some.inj left)
  exact ⟨texts.symm, (String.toList_inj.mp rests).symm⟩

/-- A literal holds no control character and opens no tag. -/
theorem visible_of_mem_script {text : String} {c : Char} (member : c ∈ (script text).toList) :
    Visible c := by
  rw [toList_script] at member
  exact visible_guard (read_quote_alone text) c member

end Pagewright.Text.Literal
