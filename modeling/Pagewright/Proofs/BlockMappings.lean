import Pagewright.Proofs.ScalarReading

set_option autoImplicit false

namespace Pagewright.Yaml

/-- What a document may give for a key. -/
inductive Block where
  /-- A number or a truth value. -/
  | word (text : String)
  | quoted (text : String)
  /-- Entries whose keys stand farther right than that of the mapping, by more than the indent. -/
  | mapping (indent : Nat) (entries : List (String × Block))

section Writing

mutual

/-- The lines of entries whose keys stand at the column. -/
def writeEntries (col : Nat) : List (String × Block) → List Char
  | [] => []
  | entry :: rest => spaces col ++ (writeEntry col entry ++ writeEntries col rest)

/-- An entry from its key on. -/
def writeEntry (col : Nat) : String × Block → List Char
  | (key, value) => key.toList ++ ':' :: value.write col

/-- What follows the colon of a key at the column. -/
def Block.write (col : Nat) : Block → List Char
  | .word text => ' ' :: (text.toList ++ ['\n'])
  | .quoted text => ' ' :: '"' :: (text.toList.flatMap escape ++ ['"', '\n'])
  | .mapping indent entries => '\n' :: writeEntries (col + indent + 1) entries

end

mutual

def entryValues : List (String × Block) → List (Yaml × Yaml)
  | [] => []
  | entry :: rest => entryValue entry :: entryValues rest

def entryValue : String × Block → Yaml × Yaml
  | (key, value) => (.scalar true key, value.value)

/-- What is read. -/
def Block.value : Block → Yaml
  | .word text => .scalar true text
  | .quoted text => .scalar false text
  | .mapping _ entries => .mapping (entryValues entries)

end

theorem entryValues_eq_map (entries : List (String × Block)) :
    entryValues entries = entries.map fun entry => (.scalar true entry.1, entry.2.value) := by
  induction entries with
  | nil => rfl
  | cons entry rest ih =>
    obtain ⟨key, value⟩ := entry
    rw [entryValues, entryValue, ih, List.map_cons]

/-- The text of a document that holds one mapping. -/
def document (entries : List (String × Block)) : String := String.ofList (writeEntries 0 entries)

/-- A word that is short enough for a key. -/
def IsKey (text : String) : Prop := IsWord text ∧ text.toList.length ≤ Cursor.keyLimit

instance : DecidablePred IsKey := fun _ => inferInstanceAs (Decidable (_ ∧ _))

/-- Words and texts are what they are said to be, no mapping is empty, and keys are of some kind. -/
inductive Block.WellFormed (isKey : String → Prop) : Block → Prop
  | word {text : String} (isWord : IsWord text) : WellFormed isKey (.word text)
  | quoted {text : String} (isText : IsText text) : WellFormed isKey (.quoted text)
  | mapping {indent : Nat} {entries : List (String × Block)} (filled : entries ≠ [])
    (keys : ∀ entry ∈ entries, isKey entry.1)
    (values : ∀ entry ∈ entries, WellFormed isKey entry.2) :
    WellFormed isKey (.mapping indent entries)

end Writing

section Reading

/-- Before any further line whose word stands no farther right than the key, the value is read from
its text, and the word comes next. -/
def Block.Reads (value : Block) : Prop :=
  ∀ (fuel line : Nat) {col place width : Nat} {next : List Char}, col ≤ place → Begins next →
    (next = [] ∨ width ≤ col) → 4 * (value.write col ++ (spaces width ++ next)).length ≤ fuel →
    ∃ after lastLine,
      blockValue fuel true (col + 1)
          ⟨value.write col ++ (spaces width ++ next), line, place, false⟩ =
        some (value.value, after) ∧
      after.skip false = ⟨next, lastLine, width, true⟩

section Values

variable {fuel floor col line place width : Nat} {next : List Char}

theorem blockValue_node {cursor next : Cursor} (skipped : cursor.skip false = next)
    (more : next.isFinal = false) (reached : floor ≤ next.col) :
    blockValue (fuel + 1) true floor cursor = blockNode fuel floor next := by
  simp [blockValue, skipped, more, reached]

theorem reads_word {text : String} (isWord : IsWord text) : (Block.word text).Reads := by
  intro fuel line col place width next right begins outside enough
  obtain ⟨fuel, rfl⟩ : ∃ less, fuel = less + 2 := by
    simp only [Block.write, List.length_cons, List.length_append] at enough
    exact ⟨fuel - 2, by omega⟩
  have shape : (Block.word text).write col ++ (spaces width ++ next) =
      spaces 1 ++ (text.toList ++ '\n' :: (spaces width ++ next)) := by
    simp [Block.write, spaces]
  have skipped : Cursor.skip false
      ⟨spaces 1 ++ (text.toList ++ '\n' :: (spaces width ++ next)), line, place, false⟩ =
      ⟨text.toList ++ '\n' :: (spaces width ++ next), line, place + 1, false⟩ :=
    skip_spaces 1 (isWord.begins _)
  refine ⟨⟨next, line + 1, width, true⟩, line + 1, ?_, skip_word begins⟩
  rw [shape, blockValue_node skipped (isFinal_word isWord _) (Nat.add_le_add_right right 1),
    blockNode_word isWord,
    keyNode_lineEnd isWord width begins (outside.imp_right Nat.lt_succ_of_le)]
  rfl

theorem reads_quoted {text : String} (isText : IsText text) : (Block.quoted text).Reads := by
  intro fuel line col place width next right begins outside enough
  obtain ⟨fuel, rfl⟩ : ∃ less, fuel = less + 2 := by
    simp only [Block.write, List.length_cons, List.length_append] at enough
    exact ⟨fuel - 2, by omega⟩
  have shape : (Block.quoted text).write col ++ (spaces width ++ next) =
      ' ' :: '"' :: (text.toList.flatMap escape ++ '"' :: '\n' :: (spaces width ++ next)) := by
    simp [Block.write]
  have skipped : Cursor.skip false
      ⟨' ' :: '"' :: (text.toList.flatMap escape ++ '"' :: '\n' :: (spaces width ++ next)),
        line, place, false⟩ =
      ⟨'"' :: (text.toList.flatMap escape ++ '"' :: '\n' :: (spaces width ++ next)),
        line, place + 1, false⟩ := rfl
  obtain ⟨behind, read⟩ : ∃ behind, keyNode fuel (col + 1)
      ⟨'"' :: (text.toList.flatMap escape ++ '"' :: '\n' :: (spaces width ++ next)),
        line, place + 1, false⟩ =
      some (.scalar false text, ⟨'\n' :: (spaces width ++ next), line, behind, false⟩) :=
    keyNode_quoted isText
  refine ⟨⟨'\n' :: (spaces width ++ next), line, behind, false⟩, line + 1, ?_,
    skip_lineEnd width begins⟩
  rw [shape, blockValue_node skipped rfl (Nat.add_le_add_right right 1),
    blockNode_scalar (by decide), read]
  rfl

theorem atGap_write (col : Nat) (value : Block) (rest : List Char) :
    atGap (value.write col ++ rest) = true := by
  cases value <;> rfl

theorem writeEntry_append (key : String) (value : Block) (rest : List Char) :
    writeEntry col (key, value) ++ rest = key.toList ++ ':' :: (value.write col ++ rest) := by
  rw [writeEntry, List.append_assoc, List.cons_append]

theorem begins_writeEntry {key : String} (isWord : IsWord key) (value : Block) (rest : List Char) :
    Begins (writeEntry col (key, value) ++ rest) := by
  rw [writeEntry_append]
  exact isWord.begins _

theorem isFinal_writeEntry {key : String} (isWord : IsWord key) (value : Block) (rest : List Char) :
    Cursor.isFinal ⟨writeEntry col (key, value) ++ rest, line, place, true⟩ = false := by
  rw [writeEntry_append]
  exact isFinal_word isWord _

theorem length_writeEntry (key : String) (value : Block) :
    (writeEntry col (key, value)).length = key.toList.length + 1 + (value.write col).length := by
  rw [writeEntry, List.length_append, List.length_cons]
  omega

/-- An entry is read if its key is short enough and its value is read. -/
theorem blockEntry_key {key : String} (isWord : IsWord key) (value : Block) (rest : List Char) :
    blockEntry (fuel + 1) col ⟨writeEntry col (key, value) ++ rest, line, col, true⟩ =
      if key.toList.length ≤ Cursor.keyLimit then
        (blockValue fuel true (col + 1)
            ⟨value.write col ++ rest, line, col + key.toList.length + 1, false⟩).map
          fun (node, after) => ((.scalar true key, node), after)
      else none := by
  have gap := atGap_write col value rest
  rw [writeEntry_append, blockEntry, atQuestion_word isWord]
  simp only [Bool.false_eq_true, if_false, keyNode_colon isWord gap, keyColon?_word isWord gap,
    Option.bind_eq_bind, Option.bind_some]
  split
  · rw [Option.bind_some, Option.map_eq_bind]
    rfl
  · rfl

/-- A key begins a mapping if it is short enough; otherwise it is a text of its own. -/
theorem blockNode_key {key : String} (isWord : IsWord key) (value : Block) (rest : List Char) :
    blockNode (fuel + 1) floor ⟨writeEntry col (key, value) ++ rest, line, col, true⟩ =
      if key.toList.length ≤ Cursor.keyLimit then
        (blockEntries fuel col ⟨writeEntry col (key, value) ++ rest, line, col, true⟩).map
          fun (entries, after) => (.mapping entries, after)
      else
        some (.scalar true key,
          ⟨':' :: (value.write col ++ rest), line, col + key.toList.length, false⟩) := by
  have gap := atGap_write col value rest
  simp only [writeEntry_append, blockNode_word isWord, keyNode_colon isWord gap, Option.bind_some,
    keyColon?_word isWord gap, Bool.true_and]
  by_cases short : key.toList.length ≤ Cursor.keyLimit
  · simp only [if_pos short, Option.isSome_some, if_true]
  · simp only [if_neg short, Option.isSome_none, Bool.false_eq_true, if_false]

theorem blockEntry_write (fuel line : Nat) {key : String} {value : Block}
    (isKey : IsKey key) (reads : value.Reads) (begins : Begins next) (outside : next = [] ∨ width ≤ col)
    (enough : 4 * (writeEntry col (key, value) ++ (spaces width ++ next)).length ≤ fuel + 1) :
    ∃ after lastLine,
      blockEntry fuel col ⟨writeEntry col (key, value) ++ (spaces width ++ next), line, col, true⟩ =
        some (entryValue (key, value), after) ∧
      after.skip false = ⟨next, lastLine, width, true⟩ := by
  obtain ⟨isWord, short⟩ := isKey
  rw [List.length_append, length_writeEntry, Nat.add_assoc, ← List.length_append] at enough
  obtain ⟨fuel, rfl⟩ : ∃ less, fuel = less + 1 := ⟨fuel - 1, by omega⟩
  obtain ⟨after, lastLine, read, skipped⟩ := reads fuel line
    (show col ≤ col + key.toList.length + 1 by omega) begins outside (by omega)
  refine ⟨after, lastLine, ?_, skipped⟩
  rw [blockEntry_key isWord, if_pos short, read]
  rfl

theorem blockEntries_last {entry : Yaml × Yaml} {cursor after next : Cursor}
    (read : blockEntry fuel col cursor = some (entry, after)) (skipped : after.skip false = next)
    (ends : next.isFinal = true ∨ next.col < col) :
    blockEntries (fuel + 1) col cursor = some ([entry], next) := by
  have stops : (next.isFinal || decide (next.col < col)) = true := by
    rwa [Bool.or_eq_true, decide_eq_true_eq]
  simp only [blockEntries, read, skipped, Option.bind_eq_bind, Option.bind_some, if_pos stops]

theorem blockEntries_next {entry : Yaml × Yaml} {cursor after next : Cursor}
    (read : blockEntry fuel col cursor = some (entry, after)) (skipped : after.skip false = next)
    (more : next.isFinal = false) (below : next.col = col) (fresh : next.fresh = true) :
    blockEntries (fuel + 1) col cursor =
      (blockEntries fuel col next).map fun (others, last) => (entry :: others, last) := by
  have goesOn : ¬(next.isFinal || decide (next.col < col)) = true := by simp [more, below]
  have isEntry : (decide (next.col = col) && next.fresh) = true := by simp [below, fresh]
  simp only [blockEntries, read, skipped, Option.bind_eq_bind, Option.bind_some, if_neg goesOn,
    if_pos isEntry]
  rw [Option.map_eq_bind]
  rfl

/-- Entries below each other are read up to a word that stands left of their keys. -/
theorem blockEntries_write (fuel line : Nat) {key : String} {value : Block}
    {rest : List (String × Block)}
    (keys : ∀ entry ∈ (key, value) :: rest, IsKey entry.1)
    (reads : ∀ entry ∈ (key, value) :: rest, entry.2.Reads)
    (begins : Begins next) (outside : next = [] ∨ width < col)
    (enough : 4 * (writeEntry col (key, value) ++
      (writeEntries col rest ++ (spaces width ++ next))).length ≤ fuel + 1) :
    ∃ lastLine,
      blockEntries (fuel + 1) col
          ⟨writeEntry col (key, value) ++ (writeEntries col rest ++ (spaces width ++ next)),
            line, col, true⟩ =
        some (entryValues ((key, value) :: rest), ⟨next, lastLine, width, true⟩) := by
  induction rest generalizing key value fuel line with
  | nil =>
    obtain ⟨after, lastLine, read, skipped⟩ := blockEntry_write fuel line
      (keys _ (.head _)) (reads _ (.head _)) begins (outside.imp_right Nat.le_of_lt) enough
    refine ⟨lastLine, blockEntries_last read skipped ?_⟩
    rcases outside with rfl | left
    · exact .inl rfl
    · exact .inr left
  | cons follower rest ih =>
    obtain ⟨nextKey, nextValue⟩ := follower
    obtain ⟨keyFirst, keysRest⟩ := List.forall_mem_cons.mp keys
    obtain ⟨readsFirst, readsRest⟩ := List.forall_mem_cons.mp reads
    have isWord : IsWord nextKey := (keysRest _ (.head _)).1
    rw [writeEntries, List.append_assoc, List.append_assoc] at enough ⊢
    obtain ⟨after, lastLine, read, skipped⟩ := blockEntry_write fuel line
      keyFirst readsFirst (begins_writeEntry isWord nextValue _) (.inr (Nat.le_refl col)) enough
    rw [List.length_append, length_writeEntry, List.length_append] at enough
    obtain ⟨fuel, rfl⟩ : ∃ less, fuel = less + 1 := ⟨fuel - 1, by omega⟩
    obtain ⟨lastLine, others⟩ := ih fuel lastLine keysRest readsRest (by omega)
    refine ⟨lastLine, ?_⟩
    rw [blockEntries_next read skipped (isFinal_writeEntry isWord nextValue _) rfl rfl, others]
    rfl

/-- A key that is short enough begins a mapping. -/
theorem blockNode_write (fuel floor line : Nat) {key : String} {value : Block}
    {rest : List (String × Block)}
    (keys : ∀ entry ∈ (key, value) :: rest, IsKey entry.1)
    (reads : ∀ entry ∈ (key, value) :: rest, entry.2.Reads)
    (begins : Begins next) (outside : next = [] ∨ width < col)
    (enough : 4 * (writeEntry col (key, value) ++
      (writeEntries col rest ++ (spaces width ++ next))).length ≤ fuel + 1) :
    ∃ lastLine,
      blockNode (fuel + 2) floor
          ⟨writeEntry col (key, value) ++ (writeEntries col rest ++ (spaces width ++ next)),
            line, col, true⟩ =
        some (.mapping (entryValues ((key, value) :: rest)), ⟨next, lastLine, width, true⟩) := by
  obtain ⟨isWord, short⟩ := keys _ (.head _)
  obtain ⟨lastLine, read⟩ := blockEntries_write fuel line keys reads begins outside enough
  refine ⟨lastLine, ?_⟩
  rw [blockNode_key isWord, if_pos short, read]
  rfl

theorem write_mapping_append {indent : Nat} (entry : String × Block)
    (entries : List (String × Block)) (following : List Char) :
    (Block.mapping indent (entry :: entries)).write col ++ following =
      '\n' :: (spaces (col + indent + 1) ++ (writeEntry (col + indent + 1) entry ++
        (writeEntries (col + indent + 1) entries ++ following))) := by
  simp [Block.write, writeEntries]

/-- The value of a key is a mapping if a word stands farther right on the next line. -/
theorem blockValue_mapping {indent : Nat} {key : String} (isWord : IsWord key) (value : Block)
    (rest : List (String × Block)) (following : List Char) :
    blockValue (fuel + 1) true (col + 1)
        ⟨(Block.mapping indent ((key, value) :: rest)).write col ++ following, line, place, false⟩ =
      blockNode fuel (col + 1)
        ⟨writeEntry (col + indent + 1) (key, value) ++
          (writeEntries (col + indent + 1) rest ++ following),
          line + 1, col + indent + 1, true⟩ := by
  rw [write_mapping_append, blockValue_node (skip_lineEnd _ (begins_writeEntry isWord value _))
    (isFinal_writeEntry isWord value _) (Nat.add_le_add_right (Nat.le_add_right col indent) 1)]

theorem reads_mapping {indent : Nat} {entries : List (String × Block)} (filled : entries ≠ [])
    (keys : ∀ entry ∈ entries, IsKey entry.1) (reads : ∀ entry ∈ entries, entry.2.Reads) :
    (Block.mapping indent entries).Reads := by
  intro fuel line col place width next right begins outside enough
  obtain ⟨⟨key, value⟩, rest, rfl⟩ := List.exists_cons_of_ne_nil filled
  rw [write_mapping_append, List.length_cons, List.length_append] at enough
  obtain ⟨fuel, rfl⟩ : ∃ less, fuel = less + 3 := ⟨fuel - 3, by omega⟩
  have farther : next = [] ∨ width < col + indent + 1 := outside.imp_right fun left => by omega
  obtain ⟨lastLine, read⟩ := blockNode_write fuel (col + 1) (line + 1) keys reads begins farther
    (by omega)
  refine ⟨⟨next, lastLine, width, true⟩, lastLine, ?_, skip_word begins⟩
  rw [blockValue_mapping (keys _ (.head _)).1, read]
  rfl

/-- Every value is read from its text. -/
theorem Block.WellFormed.reads {value : Block} (wellFormed : value.WellFormed IsKey) :
    value.Reads := by
  induction wellFormed with
  | word isWord => exact reads_word isWord
  | quoted isText => exact reads_quoted isText
  | mapping filled keys _ reads => exact reads_mapping filled keys reads

end Values

end Reading

end Pagewright.Yaml
