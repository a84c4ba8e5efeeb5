import Pagewright.Proofs.BlockMappings

set_option autoImplicit false

namespace Pagewright.Yaml

section LongKeys

variable {fuel floor col line place width : Nat} {next : List Char}

/-- Nothing is read, or the reader stops at a colon that ends no key. -/
def StuckBehind {α : Type} (col : Nat) (result : Option (α × Cursor)) : Prop :=
  ∀ node after, result = some (node, after) →
    ∃ rest line place, after = ⟨':' :: rest, line, place, false⟩ ∧ col ≤ place

/-- The value is not read to its end. -/
def Block.Sticks (value : Block) : Prop :=
  ∀ (fuel : Nat) {col line place width : Nat} {next : List Char}, Begins next →
    (next = [] ∨ width ≤ col) →
    4 * (value.write col ++ (spaces width ++ next)).length ≤ fuel →
    StuckBehind col (blockValue fuel true (col + 1)
      ⟨value.write col ++ (spaces width ++ next), line, place, false⟩)

theorem stuckBehind_none {α : Type} : StuckBehind col (none : Option (α × Cursor)) :=
  fun _ _ read => nomatch read

theorem blockEntries_of_stuck {cursor : Cursor}
    (stuck : StuckBehind col (blockEntry fuel col cursor)) :
    blockEntries (fuel + 1) col cursor = none := by
  cases read : blockEntry fuel col cursor with
  | none => simp [blockEntries, read]
  | some result =>
    obtain ⟨entry, after⟩ := result
    obtain ⟨rest, line, place, rfl, right⟩ := stuck entry after read
    have more : Cursor.isFinal ⟨':' :: rest, line, place, false⟩ = false :=
      isFinal_cons (by decide) (by decide)
    simp [blockEntries, read, skip_colon, more, Nat.not_lt.mpr right]

/-- The reader sticks in an entry if its key is too long or it sticks in its value. -/
theorem blockEntry_stuck {key : String} {value : Block} (isWord : IsWord key)
    (sticks : IsKey key → value.Sticks) (begins : Begins next) (outside : next = [] ∨ width ≤ col)
    (enough : 4 * (writeEntry col (key, value) ++ (spaces width ++ next)).length ≤ fuel + 1) :
    StuckBehind col (blockEntry fuel col
      ⟨writeEntry col (key, value) ++ (spaces width ++ next), line, col, true⟩) := by
  rw [List.length_append, length_writeEntry, Nat.add_assoc, ← List.length_append] at enough
  obtain ⟨fuel, rfl⟩ : ∃ less, fuel = less + 1 := ⟨fuel - 1, by omega⟩
  rw [blockEntry_key isWord]
  split
  · rename_i short
    intro entry after read
    obtain ⟨⟨node, after⟩, found, same⟩ := Option.map_eq_some_iff.mp read
    cases same
    exact sticks ⟨isWord, short⟩ fuel begins outside (by omega) node after found
  · exact stuckBehind_none

theorem blockEntries_stuck {key : String} {value : Block} {rest : List (String × Block)}
    (keys : ∀ entry ∈ (key, value) :: rest, IsWord entry.1)
    (values : ∀ entry ∈ (key, value) :: rest, ¬ entry.2.WellFormed IsKey → entry.2.Sticks)
    (long : ¬ ∀ entry ∈ (key, value) :: rest, IsKey entry.1 ∧ entry.2.WellFormed IsKey)
    (begins : Begins next) (outside : next = [] ∨ width < col)
    (enough : 4 * (writeEntry col (key, value) ++
      (writeEntries col rest ++ (spaces width ++ next))).length ≤ fuel + 1) :
    blockEntries (fuel + 1) col
        ⟨writeEntry col (key, value) ++ (writeEntries col rest ++ (spaces width ++ next)),
          line, col, true⟩ = none := by
  induction rest generalizing key value fuel line with
  | nil =>
    rw [List.forall_mem_singleton] at long
    exact blockEntries_of_stuck (blockEntry_stuck (keys _ (.head _))
      (fun isKey => values _ (.head _) fun wellFormed => long ⟨isKey, wellFormed⟩) begins
      (outside.imp_right Nat.le_of_lt) enough)
  | cons follower rest ih =>
    obtain ⟨nextKey, nextValue⟩ := follower
    obtain ⟨isWord, keysRest⟩ := List.forall_mem_cons.mp keys
    obtain ⟨value', valuesRest⟩ := List.forall_mem_cons.mp values
    have nextWord : IsWord nextKey := keysRest _ (.head _)
    rw [writeEntries, List.append_assoc, List.append_assoc] at enough ⊢
    by_cases read : IsKey key ∧ value.WellFormed IsKey
    · obtain ⟨after, lastLine, entry, skipped⟩ := blockEntry_write fuel line
        read.1 read.2.reads (begins_writeEntry nextWord nextValue _) (.inr (Nat.le_refl col)) enough
      rw [List.length_append, length_writeEntry, List.length_append] at enough
      obtain ⟨fuel, rfl⟩ : ∃ less, fuel = less + 1 := ⟨fuel - 1, by omega⟩
      have longRest : ¬ ∀ entry ∈ (nextKey, nextValue) :: rest,
          IsKey entry.1 ∧ entry.2.WellFormed IsKey :=
        fun short => long (List.forall_mem_cons.mpr ⟨read, short⟩)
      rw [blockEntries_next entry skipped (isFinal_writeEntry nextWord nextValue _) rfl rfl,
        ih keysRest valuesRest longRest (by omega)]
      rfl
    · exact blockEntries_of_stuck (blockEntry_stuck isWord
        (fun isKey => value' fun wellFormed => read ⟨isKey, wellFormed⟩)
        (begins_writeEntry nextWord nextValue _) (.inr (Nat.le_refl col)) enough)

theorem blockNode_stuck (fuel floor line : Nat) {key : String} {value : Block}
    {rest : List (String × Block)}
    (keys : ∀ entry ∈ (key, value) :: rest, IsWord entry.1)
    (values : ∀ entry ∈ (key, value) :: rest, ¬ entry.2.WellFormed IsKey → entry.2.Sticks)
    (long : ¬ ∀ entry ∈ (key, value) :: rest, IsKey entry.1 ∧ entry.2.WellFormed IsKey)
    (begins : Begins next) (outside : next = [] ∨ width < col)
    (enough : 4 * (writeEntry col (key, value) ++
      (writeEntries col rest ++ (spaces width ++ next))).length ≤ fuel + 1) :
    StuckBehind col (blockNode (fuel + 2) floor
      ⟨writeEntry col (key, value) ++ (writeEntries col rest ++ (spaces width ++ next)),
        line, col, true⟩) := by
  have isWord : IsWord key := keys _ (.head _)
  rw [blockNode_key isWord]
  split
  · rw [blockEntries_stuck keys values long begins outside enough]
    exact stuckBehind_none
  · rintro node after ⟨⟩
    exact ⟨_, _, _, rfl, Nat.le_add_right _ _⟩

theorem sticks_mapping {indent : Nat} {entries : List (String × Block)} (filled : entries ≠ [])
    (keys : ∀ entry ∈ entries, IsWord entry.1)
    (values : ∀ entry ∈ entries, ¬ entry.2.WellFormed IsKey → entry.2.Sticks)
    (long : ¬ (Block.mapping indent entries).WellFormed IsKey) :
    (Block.mapping indent entries).Sticks := by
  intro fuel col line place width next begins outside enough
  obtain ⟨⟨key, value⟩, rest, rfl⟩ := List.exists_cons_of_ne_nil filled
  have someLong : ¬ ∀ entry ∈ (key, value) :: rest, IsKey entry.1 ∧ entry.2.WellFormed IsKey :=
    fun short => long (.mapping filled (fun entry member => (short entry member).1)
      fun entry member => (short entry member).2)
  rw [write_mapping_append, List.length_cons, List.length_append] at enough
  obtain ⟨fuel, rfl⟩ : ∃ less, fuel = less + 3 := ⟨fuel - 3, by omega⟩
  have farther : next = [] ∨ width < col + indent + 1 := outside.imp_right fun left => by omega
  rw [blockValue_mapping (keys _ (.head _))]
  intro node after read
  obtain ⟨behind, lastLine, stop, rfl, right⟩ :=
    blockNode_stuck fuel (col + 1) (line + 1) keys values someLong begins farther (by omega)
      node after read
  exact ⟨behind, lastLine, stop, rfl, by omega⟩

theorem Block.WellFormed.sticks {value : Block} (wellFormed : value.WellFormed IsWord)
    (long : ¬ value.WellFormed IsKey) : value.Sticks := by
  induction wellFormed with
  | word isWord => exact absurd (.word isWord) long
  | quoted isText => exact absurd (.quoted isText) long
  | mapping filled keys _ values => exact sticks_mapping filled keys values long

end LongKeys

section Characters

/-- A document holds printable characters and line feeds. -/
def IsWritten (c : Char) : Prop := c = '\n' ∨ isPrintable c = true

theorem isWritten_of_isWordChar {c : Char} (word : isWordChar c = true) : IsWritten c := by
  obtain ⟨low, high⟩ := toNat_of_isWordChar word
  refine .inr ?_
  rw [isPrintable, Bool.and_eq_true, decide_eq_true_eq, decide_eq_true_eq]
  omega

theorem isWritten_space {c : Char} {width : Nat} (member : c ∈ spaces width) : IsWritten c := by
  obtain ⟨-, rfl⟩ := List.mem_replicate.mp member
  exact .inr rfl

theorem isWritten_escape {c d : Char} (printable : isPrintable c = true) (member : d ∈ escape c) :
    IsWritten d := by
  unfold escape at member
  split at member
  · rcases List.mem_cons.mp member with rfl | member
    · exact .inr rfl
    · cases List.mem_singleton.mp member
      exact .inr printable
  · cases List.mem_singleton.mp member
    exact .inr printable

theorem isWritten_writeEntries {entries : List (String × Block)}
    (keys : ∀ entry ∈ entries, IsWord entry.1)
    (values : ∀ entry ∈ entries, ∀ col, ∀ c ∈ entry.2.write col, IsWritten c) (col : Nat) :
    ∀ c ∈ writeEntries col entries, IsWritten c := by
  induction entries with
  | nil => exact fun c member => nomatch member
  | cons entry rest ih =>
    obtain ⟨key, value⟩ := entry
    obtain ⟨isWord, isWords⟩ := List.forall_mem_cons.mp keys
    obtain ⟨first, others⟩ := List.forall_mem_cons.mp values
    intro c member
    rw [writeEntries, writeEntry, List.mem_append, List.mem_append, List.mem_append,
      List.mem_cons] at member
    rcases member with space | (inKey | rfl | inValue) | inRest
    · exact isWritten_space space
    · exact isWritten_of_isWordChar (isWord.2 c inKey)
    · exact .inr rfl
    · exact first col c inValue
    · exact ih isWords others c inRest

theorem isWritten_write {value : Block} (wellFormed : value.WellFormed IsWord) :
    ∀ col, ∀ c ∈ value.write col, IsWritten c := by
  induction wellFormed with
  | word isWord =>
    intro col c member
    rw [Block.write, List.mem_cons, List.mem_append, List.mem_singleton] at member
    rcases member with rfl | inWord | lineEnd
    · exact .inr rfl
    · exact isWritten_of_isWordChar (isWord.2 c inWord)
    · exact .inl lineEnd
  | quoted isText =>
    intro col c member
    rw [Block.write, List.mem_cons, List.mem_cons, List.mem_append, List.mem_flatMap] at member
    rcases member with rfl | rfl | ⟨d, inText, escaped⟩ | closing
    · exact .inr rfl
    · exact .inr rfl
    · exact isWritten_escape (isText d inText) escaped
    · rcases List.mem_cons.mp closing with rfl | lineEnd
      · exact .inr rfl
      · exact .inl (List.mem_singleton.mp lineEnd)
  | mapping filled keys _ values =>
    intro col c member
    rcases List.mem_cons.mp member with rfl | inside
    · exact .inl rfl
    · exact isWritten_writeEntries keys values _ c inside

theorem isAllowed_of_isWritten {c : Char} (written : IsWritten c) : isAllowed c = true := by
  rcases written with rfl | printable
  · rfl
  · rw [isPrintable] at printable
    simp only [isAllowed, printable, Bool.or_true, Bool.true_or]

theorem normalizeBreaks_of_isWritten {text : List Char} (written : ∀ c ∈ text, IsWritten c) :
    normalizeBreaks text = text := by
  induction text with
  | nil => rfl
  | cons c cs ih =>
    obtain ⟨first, others⟩ := List.forall_mem_cons.mp written
    have notReturn : c ≠ '\r' := by
      rintro rfl
      rcases first with lineEnd | printable
      · exact absurd lineEnd (by decide)
      · exact absurd printable (by decide)
    have notNextLine : c.toNat ≠ 0x85 := by
      rcases first with rfl | printable
      · decide
      · simp only [isPrintable, Bool.and_eq_true, decide_eq_true_eq] at printable
        omega
    rw [normalizeBreaks, ih others, beq_false_of_ne notReturn, beq_false_of_ne notNextLine]
    · rfl
    · exact fun _ same _ => notReturn same

end Characters

section Documents

theorem Block.WellFormed.mono {isKey weaker : String → Prop} {value : Block}
    (wellFormed : value.WellFormed isKey) (weaken : ∀ key, isKey key → weaker key) :
    value.WellFormed weaker := by
  induction wellFormed with
  | word isWord => exact .word isWord
  | quoted isText => exact .quoted isText
  | mapping filled keys _ values =>
    exact .mapping filled (fun entry member => weaken _ (keys entry member)) values

variable {key : String} {value : Block} {rest : List (String × Block)}

/-- The reader sees the text of a document as it is written, and begins at its first key. Behind the
last line nothing follows. -/
theorem read?_document (keys : ∀ entry ∈ (key, value) :: rest, IsWord entry.1)
    (values : ∀ entry ∈ (key, value) :: rest, entry.2.WellFormed IsWord) :
    ∃ fuel,
      4 * (writeEntry 0 (key, value) ++
        (writeEntries 0 rest ++ (spaces 0 ++ []))).length ≤ fuel + 1 ∧
      read? (document ((key, value) :: rest)) =
        (blockNode (fuel + 2) 0
            ⟨writeEntry 0 (key, value) ++ (writeEntries 0 rest ++ (spaces 0 ++ [])),
              0, 0, true⟩).bind
          fun (root, after) => if isFinished (fuel + 2) after then some root else none := by
  have isWord : IsWord key := keys _ (.head _)
  have written : ∀ c ∈ writeEntries 0 ((key, value) :: rest), IsWritten c :=
    isWritten_writeEntries keys (fun entry member => isWritten_write (values entry member)) 0
  have allowed : (writeEntries 0 ((key, value) :: rest)).all isAllowed = true :=
    List.all_eq_true.mpr fun c member => isAllowed_of_isWritten (written c member)
  have shape : writeEntries 0 ((key, value) :: rest) =
      writeEntry 0 (key, value) ++ (writeEntries 0 rest ++ (spaces 0 ++ [])) := by
    rw [List.append_nil, spaces, List.replicate_zero, List.append_nil]
    rfl
  rw [shape] at written allowed
  generalize writeEntries 0 rest ++ (spaces 0 ++ []) = behind at shape written allowed ⊢
  have skipped : Cursor.skip false ⟨writeEntry 0 (key, value) ++ behind, 0, 0, true⟩ =
      ⟨writeEntry 0 (key, value) ++ behind, 0, 0, true⟩ :=
    skip_word (begins_writeEntry isWord value behind)
  have more : Cursor.isFinal ⟨writeEntry 0 (key, value) ++ behind, 0, 0, true⟩ = false :=
    isFinal_writeEntry isWord value behind
  have inside := more
  simp only [Cursor.isFinal, Bool.or_eq_false_iff] at inside
  obtain ⟨⟨-, notStart⟩, notEnd⟩ := inside
  refine ⟨4 * (writeEntry 0 (key, value) ++ behind).length + 6, by omega, ?_⟩
  simp only [read?, document, String.toList_ofList, shape, allowed,
    normalizeBreaks_of_isWritten written, skipped, notStart, notEnd, more, Bool.not_true,
    Bool.or_false, Bool.false_eq_true, if_false]
  rfl

/-- A document of short keys is read as the mapping that it was written for. -/
theorem read?_document_of_short {entries : List (String × Block)}
    (keys : ∀ entry ∈ entries, IsKey entry.1)
    (values : ∀ entry ∈ entries, entry.2.WellFormed IsKey) :
    read? (document entries) =
      some (if entries = [] then .empty else .mapping (entryValues entries)) := by
  cases entries with
  | nil => rfl
  | cons entry rest =>
    obtain ⟨key, value⟩ := entry
    obtain ⟨fuel, enough, read⟩ := read?_document (fun entry member => (keys entry member).1)
      (fun entry member => (values entry member).mono fun _ isKey => isKey.1)
    obtain ⟨lastLine, node⟩ := blockNode_write fuel 0 0 keys
      (fun entry member => (values entry member).reads) begins_nil (.inl rfl) enough
    rw [read, node]
    rfl

theorem not_isFinished_colon {fuel line place : Nat} {rest : List Char} :
    isFinished fuel ⟨':' :: rest, line, place, false⟩ = false := by
  cases fuel with
  | zero => rfl
  | succ fuel =>
    have more : Cursor.isFinal ⟨':' :: rest, line, place, false⟩ = false :=
      isFinal_cons (by decide) (by decide)
    simp only [Cursor.isFinal, Bool.or_eq_false_iff] at more
    simp only [isFinished, skip_colon, more.1.1, more.2, Bool.false_and, Bool.or_false]

/-- A document with a longer key, at any depth, is not read. -/
theorem read?_document_of_long {entries : List (String × Block)}
    (keys : ∀ entry ∈ entries, IsWord entry.1)
    (values : ∀ entry ∈ entries, entry.2.WellFormed IsWord)
    (long : ¬ ∀ entry ∈ entries, IsKey entry.1 ∧ entry.2.WellFormed IsKey) :
    read? (document entries) = none := by
  cases entries with
  | nil => exact absurd (fun entry member => nomatch member) long
  | cons entry rest =>
    obtain ⟨key, value⟩ := entry
    obtain ⟨fuel, enough, read⟩ := read?_document keys values
    have stuck := blockNode_stuck fuel 0 0 keys
      (fun entry member => (values entry member).sticks) long begins_nil (.inl rfl) enough
    rw [read]
    cases node : blockNode (fuel + 2) 0
        ⟨writeEntry 0 (key, value) ++ (writeEntries 0 rest ++ (spaces 0 ++ [])), 0, 0, true⟩ with
    | none => rfl
    | some result =>
      obtain ⟨root, after⟩ := result
      obtain ⟨behind, line, place, rfl, -⟩ := stuck root after node
      simp only [Option.bind_some, not_isFinished_colon, Bool.false_eq_true, if_false]

end Documents

end Pagewright.Yaml
