import Pagewright.Yaml.Read

set_option autoImplicit false

namespace Pagewright.Yaml

/-- The characters of keys, numbers and truth values. They are marks of nothing. -/
def isWordChar (c : Char) : Bool := c.isAlphanum || c == '_'

section Words

variable {c : Char}

theorem toNat_of_isWordChar (word : isWordChar c = true) : 0x30 ≤ c.toNat ∧ c.toNat ≤ 0x7a := by
  have ranges : isWordChar c = (decide (c.val ≥ 'A'.val ∧ c.val ≤ 'Z'.val) ||
      (c.val ≥ 'a'.val && c.val ≤ 'z'.val) || (c.val ≥ '0'.val && c.val ≤ '9'.val) ||
      c == '_') := rfl
  simp only [ranges, Bool.or_eq_true, Bool.and_eq_true, decide_eq_true_eq, beq_iff_eq, ge_iff_le,
    UInt32.le_iff_toNat_le] at word
  rcases word with ((⟨low, high⟩ | ⟨low, high⟩) | ⟨low, high⟩) | rfl
  · exact ⟨Nat.le_trans (by decide) low, Nat.le_trans high (by decide)⟩
  · exact ⟨Nat.le_trans (by decide) low, Nat.le_trans high (by decide)⟩
  · exact ⟨low, Nat.le_trans high (by decide)⟩
  · decide

theorem beq_of_isWordChar (word : isWordChar c = true) {mark : Char}
    (foreign : isWordChar mark = false) : (c == mark) = false := by
  rw [beq_eq_false_iff_ne]
  rintro rfl
  rw [foreign] at word
  cases word

theorem isBreak_of_isWordChar (word : isWordChar c = true) : isBreak c = false := by
  simp (disch := decide) only [isBreak, beq_of_isWordChar word, Bool.or_false]

theorem isSpace_of_isWordChar (word : isWordChar c = true) : isSpace c = false := by
  simp (disch := decide) only [isSpace, beq_of_isWordChar word, Bool.or_false]

theorem isIndicator_of_isWordChar (word : isWordChar c = true) : isIndicator c = false := by
  simp (disch := decide) only [isIndicator, isFlowIndicator, beq_of_isWordChar word, Bool.or_false]

theorem startsPlain_of_isWordChar (word : isWordChar c = true) (cs : List Char) :
    startsPlain false (c :: cs) = true := by
  simp only [startsPlain, atGap, isSpace_of_isWordChar word, isBreak_of_isWordChar word,
    isIndicator_of_isWordChar word, Bool.or_false, Bool.not_false, Bool.and_true, Bool.true_or]

end Words

def IsWord (text : String) : Prop := text ≠ "" ∧ ∀ c ∈ text.toList, isWordChar c = true

instance (text : String) : Decidable (IsWord text) :=
  decidable_of_iff (text ≠ "" ∧ text.toList.all isWordChar = true)
    (by rw [IsWord, List.all_eq_true])

theorem IsWord.toList_eq_cons {word : String} (isWord : IsWord word) :
    ∃ c cs, word.toList = c :: cs ∧ isWordChar c = true := by
  cases chars : word.toList with
  | nil => exact absurd (String.toList_eq_nil_iff.mp chars) isWord.1
  | cons c cs => exact ⟨c, cs, rfl, isWord.2 c (chars ▸ .head _)⟩

/-- Nothing is left, or a word comes next. -/
def Begins (text : List Char) : Prop := ∀ c ∈ text.head?, isWordChar c = true

theorem begins_nil : Begins [] := fun _ nothing => nomatch nothing

theorem IsWord.begins {word : String} (isWord : IsWord word) (rest : List Char) :
    Begins (word.toList ++ rest) := by
  obtain ⟨c, cs, chars, first⟩ := isWord.toList_eq_cons
  rw [chars]
  rintro d ⟨⟩
  exact first

/-- What stands before the words of a line. -/
def spaces (width : Nat) : List Char := List.replicate width ' '

section Skipping

variable {line col : Nat} {fresh : Bool} {next : List Char}

theorem skipFrom_word (begins : Begins next) :
    Cursor.skipFrom false false line col fresh next = ⟨next, line, col, fresh⟩ := by
  cases next with
  | nil => rfl
  | cons c cs =>
    have word := begins c rfl
    simp (disch := decide) only [Cursor.skipFrom, isBreak_of_isWordChar word,
      beq_of_isWordChar word, Bool.false_and, Bool.or_false, Bool.false_eq_true, if_false]

theorem skip_word (begins : Begins next) :
    Cursor.skip false ⟨next, line, col, fresh⟩ = ⟨next, line, col, fresh⟩ := skipFrom_word begins

theorem skipFrom_spaces (width : Nat) (begins : Begins next) :
    Cursor.skipFrom false false line col fresh (spaces width ++ next) =
      ⟨next, line, col + width, fresh⟩ := by
  induction width generalizing col with
  | zero => exact skipFrom_word begins
  | succ width ih =>
    change Cursor.skipFrom false false line (col + 1) fresh (spaces width ++ next) = _
    rw [ih, Nat.add_assoc, Nat.add_comm 1]

theorem skip_spaces (width : Nat) (begins : Begins next) :
    Cursor.skip false ⟨spaces width ++ next, line, col, fresh⟩ =
      ⟨next, line, col + width, fresh⟩ := skipFrom_spaces width begins

/-- Behind the end of a line the next place is the first word of the next line. -/
theorem skip_lineEnd (width : Nat) (begins : Begins next) :
    Cursor.skip false ⟨'\n' :: (spaces width ++ next), line, col, fresh⟩ =
      ⟨next, line + 1, width, true⟩ := by
  change Cursor.skipFrom false false (line + 1) 0 (fresh || !false) (spaces width ++ next) = _
  rw [Bool.not_false, Bool.or_true, skipFrom_spaces width begins, Nat.zero_add]

/-- No mark between documents begins here. -/
theorem isFinal_cons {c : Char} {cs : List Char} (notDash : c ≠ '-') (notDot : c ≠ '.') :
    Cursor.isFinal ⟨c :: cs, line, col, fresh⟩ = false := by
  have noMarker : ∀ mark, c ≠ mark → atMarker mark (c :: cs) = false := by
    intro mark differs
    unfold atMarker
    split
    · rename_i same
      rw [← (List.cons.inj same).1, beq_false_of_ne differs]
      rfl
    · rfl
  simp [Cursor.isFinal, Cursor.atStart, Cursor.atEnd, noMarker '-' notDash, noMarker '.' notDot]

theorem isFinal_word {word : String} (isWord : IsWord word) (rest : List Char) :
    Cursor.isFinal ⟨word.toList ++ rest, line, col, fresh⟩ = false := by
  obtain ⟨c, cs, chars, first⟩ := isWord.toList_eq_cons
  rw [chars]
  exact isFinal_cons (ne_of_beq_false (beq_of_isWordChar first (by decide)))
    (ne_of_beq_false (beq_of_isWordChar first (by decide)))

theorem skip_colon {rest : List Char} :
    Cursor.skip false ⟨':' :: rest, line, col, false⟩ = ⟨':' :: rest, line, col, false⟩ := by
  simp [Cursor.skip, Cursor.skipFrom, isBreak, byteOrderMark]

end Skipping

section Plain

variable {floor line col : Nat} {text : List Char}

theorem plainFrom_word {word : List Char} (all : ∀ c ∈ word, isWordChar c = true)
    (rest : List Char) :
    plainFrom false floor text .none line col (word ++ rest) =
      plainFrom false floor (word.reverse ++ text) .none line (col + word.length) rest := by
  induction word generalizing text col with
  | nil => rfl
  | cons c word ih =>
    obtain ⟨first, others⟩ := List.forall_mem_cons.mp all
    rw [List.cons_append, plainFrom, isBreak_of_isWordChar first, isSpace_of_isWordChar first]
    simp (disch := decide) only [stopsPlain, beq_of_isWordChar first]
    change plainFrom false floor (c :: text) .none line (col + 1) (word ++ rest) = _
    rw [ih others, List.reverse_cons, List.append_assoc, List.length_cons, Nat.add_assoc,
      Nat.add_comm 1]
    rfl

theorem plainFrom_colon {rest : List Char} (gap : atGap rest = true) :
    plainFrom false floor text .none line col (':' :: rest) =
      some (text.reverse, ⟨':' :: rest, line, col, false⟩) := by
  simp [plainFrom, isBreak, isSpace, stopsPlain, gap, Gap.none, Gap.isNone, Gap.hasBreak]

/-- Spaces behind the end of a line, and a word left of the floor. -/
theorem plainFrom_spaces {breaks : List Char} (width : Nat) {next : List Char}
    (begins : Begins next) (outside : next = [] ∨ col + width < floor) :
    plainFrom false floor text (.breaks false breaks) line col (spaces width ++ next) =
      some (text.reverse, ⟨next, line, col + width, true⟩) := by
  induction width generalizing col with
  | zero =>
    rcases outside with rfl | left
    · rfl
    · cases next with
      | nil => rfl
      | cons c cs =>
        have word := begins c rfl
        have ended : endsPlain false floor col (c :: cs) = true := by
          simp [endsPlain, show col < floor from left]
        change plainFrom false floor text (.breaks false breaks) line col (c :: cs) = _
        rw [plainFrom, isBreak_of_isWordChar word, isSpace_of_isWordChar word, ended]
        rfl
  | succ width ih =>
    change plainFrom false floor text (.breaks false breaks) line (col + 1)
      (spaces width ++ next) = _
    rw [ih (outside.imp_right fun left => by omega), Nat.add_assoc, Nat.add_comm 1]

/-- A plain text ends with its line if the next word stands left of the floor. -/
theorem plainFrom_lineEnd (width : Nat) {next : List Char} (begins : Begins next)
    (outside : next = [] ∨ width < floor) :
    plainFrom false floor text .none line col ('\n' :: (spaces width ++ next)) =
      some (text.reverse, ⟨next, line + 1, width, true⟩) := by
  change plainFrom false floor text (.breaks false ['\n']) (line + 1) 0 (spaces width ++ next) = _
  rw [plainFrom_spaces width begins (by rwa [Nat.zero_add]), Nat.zero_add]

end Plain

section Quoted

/-- A quote and a backslash stand behind a backslash. -/
def escape (c : Char) : List Char := if c = '"' ∨ c = '\\' then ['\\', c] else [c]

def isPrintable (c : Char) : Bool := 0x20 ≤ c.toNat && c.toNat ≤ 0x7e

/-- What is quoted holds printable characters only. -/
def IsText (text : String) : Prop := ∀ c ∈ text.toList, isPrintable c = true

instance (text : String) : Decidable (IsText text) :=
  decidable_of_iff (text.toList.all isPrintable = true) (by rw [IsText, List.all_eq_true])

variable {text gap : List Char} {line col : Nat} {c : Char} {rest : List Char}

theorem doubleQuotedFrom_escaped (marked : c = '"' ∨ c = '\\') :
    doubleQuotedFrom text (.spaces gap) line col ('\\' :: c :: rest) =
      doubleQuotedFrom (c :: (gap ++ text)) .none line (col + 2) rest := by
  rcases marked with rfl | rfl
  · rfl
  · rfl

theorem beq_of_isPrintable (printable : isPrintable c = true) {mark : Char}
    (foreign : isPrintable mark = false) : (c == mark) = false := by
  rw [beq_eq_false_iff_ne]
  rintro rfl
  rw [foreign] at printable
  cases printable

theorem isBreak_of_isPrintable (printable : isPrintable c = true) : isBreak c = false := by
  simp (disch := decide) only [isBreak, beq_of_isPrintable printable, Bool.or_false]

theorem doubleQuotedFrom_space :
    doubleQuotedFrom text (.spaces gap) line col (' ' :: rest) =
      doubleQuotedFrom text (.spaces (' ' :: gap)) line (col + 1) rest := rfl

theorem doubleQuotedFrom_plain (unmarked : ¬ (c = '"' ∨ c = '\\'))
    (printable : isPrintable c = true) (visible : c ≠ ' ') :
    doubleQuotedFrom text (.spaces gap) line (col + 1) (c :: rest) =
      doubleQuotedFrom (c :: (gap ++ text)) .none line (col + 2) rest := by
  have notSpace : isSpace c = false := by
    simp (disch := decide) only [isSpace, beq_of_isPrintable printable, beq_false_of_ne visible,
      Bool.or_false]
  have notBackslash : (c == '\\') = false := beq_false_of_ne fun same => unmarked (.inr same)
  have inLine : (col + 1 == 0) = false := rfl
  rw [doubleQuotedFrom.eq_def]
  split
  case h_1 nothing => cases nothing
  case h_2 same => exact absurd (.inl (List.cons.inj same).1) unmarked
  case h_7 same =>
    obtain ⟨rfl, rfl⟩ := same
    rw [isBreak_of_isPrintable printable, notSpace, notBackslash, inLine]
    rfl
  all_goals
    rename_i same
    exact absurd (.inr (List.cons.inj same).1) unmarked

/-- The characters of a text, however they are mixed. -/
theorem doubleQuotedFrom_flatMap {body : List Char} (printable : ∀ c ∈ body, isPrintable c = true) :
    doubleQuotedFrom text (.spaces gap) line (col + 1) (body.flatMap escape ++ '"' :: rest) =
      some ((gap ++ text).reverse ++ body,
        ⟨rest, line, col + (body.flatMap escape).length + 2, false⟩) := by
  induction body generalizing text gap col with
  | nil =>
    rw [List.append_nil]
    rfl
  | cons c body ih =>
    obtain ⟨first, others⟩ := List.forall_mem_cons.mp printable
    rw [List.flatMap_cons, List.append_assoc, List.length_append]
    by_cases marked : c = '"' ∨ c = '\\'
    · rw [escape, if_pos marked, List.cons_append, List.cons_append, List.nil_append,
        doubleQuotedFrom_escaped marked, Gap.none, ih others]
      simp
      omega
    · rw [escape, if_neg marked, List.cons_append, List.nil_append, List.length_singleton]
      by_cases space : c = ' '
      · subst space
        rw [doubleQuotedFrom_space, ih others]
        simp
        omega
      · rw [doubleQuotedFrom_plain marked first space, Gap.none, ih others]
        simp
        omega

end Quoted

section Nodes

variable {fuel floor line col : Nat} {fresh : Bool} {rest : List Char}

/-- What begins with a character that marks no collection and no block is a scalar or a key. -/
theorem blockNode_scalar {c : Char} {cs : List Char} (unmarked : c ∉ ['-', '?', '|', '>']) :
    blockNode (fuel + 1) floor ⟨c :: cs, line, col, fresh⟩ =
      (keyNode fuel floor ⟨c :: cs, line, col, fresh⟩).bind fun (node, after) =>
        if fresh && (keyColon? ⟨c :: cs, line, col, fresh⟩ after).isSome then
          (blockEntries fuel col ⟨c :: cs, line, col, fresh⟩).map fun (entries, after) =>
            (.mapping entries, after)
        else some (node, after) := by
  simp only [List.mem_cons, List.not_mem_nil, or_false, not_or] at unmarked
  obtain ⟨notDash, notQuestion, notLiteral, notFolded⟩ := unmarked
  simp [blockNode, atDash, atQuestion, blockScalar?, notDash, notQuestion, notLiteral, notFolded]

theorem blockNode_word {word : String} (isWord : IsWord word) :
    blockNode (fuel + 1) floor ⟨word.toList ++ rest, line, col, fresh⟩ =
      (keyNode fuel floor ⟨word.toList ++ rest, line, col, fresh⟩).bind fun (node, after) =>
        if fresh && (keyColon? ⟨word.toList ++ rest, line, col, fresh⟩ after).isSome then
          (blockEntries fuel col ⟨word.toList ++ rest, line, col, fresh⟩).map
            fun (entries, after) => (.mapping entries, after)
        else some (node, after) := by
  obtain ⟨c, cs, chars, first⟩ := isWord.toList_eq_cons
  rw [chars]
  refine blockNode_scalar fun marked => ?_
  have foreign : (['-', '?', '|', '>'].all fun mark => !isWordChar mark) = true := by decide
  have notWord := List.all_eq_true.mp foreign c marked
  rw [first] at notWord
  cases notWord

theorem atQuestion_word {word : String} (isWord : IsWord word) :
    atQuestion (word.toList ++ rest) = false := by
  obtain ⟨c, cs, chars, first⟩ := isWord.toList_eq_cons
  have notQuestion : c ≠ '?' := ne_of_beq_false (beq_of_isWordChar first (by decide))
  rw [chars]
  simp [atQuestion, notQuestion]

theorem keyNode_word {word : String} (isWord : IsWord word) :
    keyNode fuel floor ⟨word.toList ++ rest, line, col, fresh⟩ =
      asScalar true (plainFrom false floor word.toList.reverse .none line
        (col + word.toList.length) rest) := by
  have read : plainFrom false floor [] .none line col (word.toList ++ rest) =
      plainFrom false floor (word.toList.reverse ++ []) .none line (col + word.toList.length)
        rest :=
    plainFrom_word isWord.2 rest
  rw [List.append_nil] at read
  obtain ⟨c, cs, chars, first⟩ := isWord.toList_eq_cons
  have ne : ∀ mark, isWordChar mark = false → c ≠ mark :=
    fun mark foreign => ne_of_beq_false (beq_of_isWordChar first foreign)
  rw [← read, chars]
  simp [keyNode, lineScalar, startsPlain_of_isWordChar first, ne '[' (by decide),
    ne '\x7b' (by decide), ne '"' (by decide), ne '\'' (by decide)]

/-- A word that ends with its line. -/
theorem keyNode_lineEnd {word : String} (isWord : IsWord word) (width : Nat) {next : List Char}
    (begins : Begins next) (outside : next = [] ∨ width < floor) :
    keyNode fuel floor ⟨word.toList ++ '\n' :: (spaces width ++ next), line, col, fresh⟩ =
      some (.scalar true word, ⟨next, line + 1, width, true⟩) := by
  rw [keyNode_word isWord, plainFrom_lineEnd width begins outside, List.reverse_reverse]
  simp [asScalar]

/-- A word before a colon. -/
theorem keyNode_colon {word : String} (isWord : IsWord word) (gap : atGap rest = true) :
    keyNode fuel floor ⟨word.toList ++ ':' :: rest, line, col, fresh⟩ =
      some (.scalar true word, ⟨':' :: rest, line, col + word.toList.length, false⟩) := by
  rw [keyNode_word isWord, plainFrom_colon gap, List.reverse_reverse]
  simp [asScalar]

/-- A quoted text is read up to its second quote. -/
theorem keyNode_quoted {text : String} (isText : IsText text) :
    ∃ behind, keyNode fuel floor
        ⟨'"' :: (text.toList.flatMap escape ++ '"' :: rest), line, col, fresh⟩ =
      some (.scalar false text, ⟨rest, line, behind, false⟩) := by
  refine ⟨col + (text.toList.flatMap escape).length + 2, ?_⟩
  change asScalar false (doubleQuotedFrom [] (.spaces []) line (col + 1) _) = _
  rw [doubleQuotedFrom_flatMap isText]
  simp [asScalar]

theorem byteSize_word {word : List Char} (all : ∀ c ∈ word, isWordChar c = true) :
    Cursor.byteSize word = word.length := by
  have counted : ∀ size,
      word.foldl (fun size c => size + c.utf8Size) size = size + word.length := by
    induction word with
    | nil => exact fun _ => rfl
    | cons c word ih =>
      intro size
      obtain ⟨first, others⟩ := List.forall_mem_cons.mp all
      have single : c.utf8Size = 1 := by
        have low := (toNat_of_isWordChar first).2
        rw [Char.utf8Size_eq_one_iff, UInt32.le_iff_toNat_le]
        exact Nat.le_trans low (by decide)
      rw [List.foldl_cons, ih others, single, List.length_cons, Nat.add_assoc, Nat.add_comm 1]
  rw [Cursor.byteSize, counted, Nat.zero_add]

/-- A word with a colon behind it is a key if it is short enough. -/
theorem keyColon?_word {key : String} (isWord : IsWord key) (gap : atGap rest = true) :
    keyColon? ⟨key.toList ++ ':' :: rest, line, col, fresh⟩
        ⟨':' :: rest, line, col + key.toList.length, false⟩ =
      if key.toList.length ≤ Cursor.keyLimit then
        some ⟨rest, line, col + key.toList.length + 1, false⟩
      else none := by
  simp [keyColon?, skip_colon, atColon, gap, Cursor.reachesKey, byteSize_word isWord.2,
    Cursor.pass, Cursor.move]

end Nodes

end Pagewright.Yaml
