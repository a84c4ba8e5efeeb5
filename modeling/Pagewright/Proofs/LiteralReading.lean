import Pagewright.Proofs.Readers
import Pagewright.Proofs.ScriptLiterals

set_option autoImplicit false

namespace Pagewright.Text.Literal

section Scripts

/-- The units of UTF-16 for a code point. -/
def utf16 (point : Nat) : List Nat :=
  if point < 0x10000 then [point]
  else [0xd800 + (point - 0x10000) / 0x400, 0xdc00 + (point - 0x10000) % 0x400]

/-- The units that the string of a script has for a text. -/
def units (text : List Char) : List Nat := text.flatMap fun c => utf16 c.toNat

/-- A character that ends a line of a script. -/
def endsLine (c : Char) : Bool := c == '\n' || c == '\r' || c == '\u2028' || c == '\u2029'

/-- A code point between braces, with any number of digits. -/
def readPoint : List Char → Option (List Nat × List Char)
  | '{' :: rest =>
    let digits := rest.takeWhile fun c => (hexDigit? c).isSome
    let point := (digits.filterMap hexDigit?).foldl (fun value digit => value * 16 + digit) 0
    match rest.dropWhile fun c => (hexDigit? c).isSome with
    | '}' :: behind =>
      if digits = [] ∨ 0x10ffff < point then none else some (utf16 point, behind)
    | _ => none
  | _ => none

/-- What an escape of a script stands for, from what follows the backslash. The end of a line
stands for nothing, and most other characters for themselves. Octal escapes, which strict scripts
do not have, are refused. -/
def readScriptEscape : List Char → Option (List Nat × List Char)
  | 'b' :: rest => some ([0x08], rest)
  | 't' :: rest => some ([0x09], rest)
  | 'n' :: rest => some ([0x0a], rest)
  | 'v' :: rest => some ([0x0b], rest)
  | 'f' :: rest => some ([0x0c], rest)
  | 'r' :: rest => some ([0x0d], rest)
  | 'x' :: a :: b :: rest => do
    let a ← hexDigit? a
    let b ← hexDigit? b
    some ([a * 16 + b], rest)
  | 'u' :: rest =>
    match readUnit rest with
    | some (unit, behind) => some ([unit], behind)
    | none => readPoint rest
  | '0' :: rest => if rest.head?.any Char.isDigit then none else some ([0], rest)
  | '\r' :: '\n' :: rest => some ([], rest)
  | c :: rest =>
    if c = 'x' ∨ c.isDigit then none
    else if endsLine c then some ([], rest)
    else some (utf16 c.toNat, rest)
  | [] => none

/-- A character or an escape before the closing quote. -/
def readPart : List Char → Option (List Nat × List Char)
  | [] => none
  | c :: rest =>
    if c = '\\' then readScriptEscape rest
    else if c = '"' ∨ c = '\n' ∨ c = '\r' then none
    else some (utf16 c.toNat, rest)

/-- The units of all parts, and what follows the last part. -/
def readParts (text : List Char) : List Nat × List Char :=
  ((readMany readPart text).1.flatten, (readMany readPart text).2)

/-- The string of the literal at the front of a script, and what follows the literal. -/
def readInScript : List Char → Option (List Nat × List Char)
  | '"' :: rest =>
    match readParts rest with
    | (string, '"' :: behind) => some (string, behind)
    | _ => none
  | _ => none

end Scripts

section Agreement

variable {piece body text : List Char} {value : List Nat} {c : Char}

/-- The parts of the text make up the units, whatever follows it. -/
def ReadsAs (piece : List Char) (value : List Nat) : Prop :=
  ∀ rest, readParts (piece ++ rest) = (value ++ (readParts rest).1, (readParts rest).2)

theorem ReadsAs.append {first second : List Char} {left right : List Nat}
    (front : ReadsAs first left) (back : ReadsAs second right) :
    ReadsAs (first ++ second) (left ++ right) := by
  intro rest
  rw [List.append_assoc, front, back, List.append_assoc]

theorem readsAs_of_readPart (filled : piece ≠ [])
    (reads : ∀ rest, readPart (piece ++ rest) = some (value, rest)) : ReadsAs piece value := by
  intro rest
  have shorter : rest.length < (piece ++ rest).length := by
    have positive := List.length_pos_iff.mpr filled
    rw [List.length_append]
    omega
  simp only [readParts, readMany_of_some (reads rest) shorter, List.flatten_cons]

theorem readsAs_escape (mark : Char) {more : List Char}
    (reads : ∀ rest, readScriptEscape (mark :: more ++ rest) = some (value, rest)) :
    ReadsAs ('\\' :: mark :: more) value := by
  refine readsAs_of_readPart (List.cons_ne_nil _ _) fun rest => ?_
  rw [List.cons_append, readPart, if_pos rfl, reads]

theorem readScriptEscape_mark {mark : Char} (listed : (mark, c) ∈ marks) (rest : List Char) :
    readScriptEscape (mark :: rest) = some (utf16 c.toNat, rest) := by
  have each : ∀ entry ∈ marks, readScriptEscape (entry.1 :: rest) =
      some (utf16 entry.2.toNat, rest) := by
    simp only [marks, List.forall_mem_cons]
    exact ⟨rfl, rfl, rfl, rfl, rfl, rfl, rfl, rfl, List.forall_mem_nil _⟩
  exact each _ listed

theorem Digits.readsAs {digits : List Char} {unit : Nat} (isUnit : Digits digits unit) :
    ReadsAs ('\\' :: 'u' :: digits) [unit] := by
  refine readsAs_escape 'u' fun rest => ?_
  simp only [List.cons_append, readScriptEscape, isUnit.reads]

/-- A script reads a piece as the units of its character. -/
theorem Denotes.readsAs (denotes : Denotes piece c) : ReadsAs piece (utf16 c.toNat) := by
  cases denotes with
  | plain visible notQuote notBackslash =>
    have oneLine : c ≠ '\n' ∧ c ≠ '\r' := by
      constructor <;> rintro rfl <;> exact visible (by decide)
    refine readsAs_of_readPart (List.cons_ne_nil _ _) fun rest => ?_
    simp [readPart, notBackslash, notQuote, oneLine]
  | @mark mark _ listed => exact readsAs_escape mark (readScriptEscape_mark listed)
  | unit isUnit =>
    rw [utf16, if_pos isUnit.bounded]
    exact isUnit.readsAs
  | @pair _ _ upper lower _ isUpper isLower high low point =>
    have units : utf16 c.toNat = [upper] ++ [lower] := by
      rw [utf16, if_neg (by omega), List.singleton_append, List.cons.injEq, List.cons.injEq]
      exact ⟨by omega, by omega, rfl⟩
    rw [units]
    exact isUpper.readsAs.append isLower.readsAs

theorem Encodes.readsAs (encodes : Encodes body text) : ReadsAs body (units text) := by
  induction encodes with
  | nil => exact fun _ => rfl
  | cons denotes more ih => exact denotes.readsAs.append ih

/-- A script reads every literal that JSON has, and reads the same text. -/
theorem readInScript_of_read {literal rest : List Char} {text : String}
    (found : read literal = some (text, rest)) :
    readInScript literal = some (units text.toList, rest) := by
  obtain ⟨body, rfl, encodes⟩ := read_eq_some_iff.mp found
  have closing : readParts ('"' :: rest) = ([], '"' :: rest) := by
    simp only [readParts, readMany_of_none (rfl : readPart ('"' :: rest) = none), List.flatten_nil]
  simp only [readInScript, encodes.readsAs ('"' :: rest), closing, List.append_nil]

example : readInScript "\"\\ud83d\\ude00\\/\"".toList = some ([0xd83d, 0xde00, 0x2f], []) := by
  decide +kernel

end Agreement

section Cuts

variable {literal before after : List Char} {text : String}

/-- The only quotes of a literal that no backslash takes are its first and its last character. -/
theorem unescaped_iff_of_read (found : read literal = some (text, []))
    (whole : literal = before ++ '"' :: after) :
    trailingBackslashes before % 2 = 0 ↔ before = [] ∨ after = [] := by
  obtain ⟨body, rfl, encodes⟩ := read_eq_some_iff.mp found
  exact encodes.unescaped_iff whole

/-- Cut before and behind a character that opens tags, a literal leaves two literals. -/
theorem cut_of_read (found : read literal = some (text, []))
    (whole : literal = before ++ '<' :: after) :
    ∃ front back, text = front ++ "<" ++ back ∧ read (before ++ ['"']) = some (front, []) ∧
      read ('"' :: after) = some (back, []) := by
  obtain ⟨body, rfl, encodes⟩ := read_eq_some_iff.mp found
  -- Both quotes of the literal are other characters than the one that is cut out.
  obtain ⟨inner, rfl⟩ : ∃ inner, before = '"' :: inner := by
    cases before with
    | nil => simp at whole
    | cons c inner => exact ⟨inner, by rw [(List.cons.inj whole).1]⟩
  obtain ⟨rest, rfl, rfl⟩ : ∃ rest, body = inner ++ '<' :: rest ∧ after = rest ++ ['"'] := by
    rcases append_eq_append_cons (List.cons.inj whole).2 with ⟨rest, -, last⟩ | inside
    · cases rest <;> simp at last
    · exact inside
  obtain ⟨front, back, parts, inFront, inBack⟩ := encodes.cut
  refine ⟨String.ofList front, String.ofList back, ?_, ?_, ?_⟩
  · exact String.toList_inj.mp (by simp [parts])
  · exact read_eq_some_iff.mpr ⟨inner, rfl, by rwa [String.toList_ofList]⟩
  · exact read_eq_some_iff.mpr ⟨rest, rfl, by rwa [String.toList_ofList]⟩

end Cuts

/-- The literal of a text in a script element is read back from its first to its last character,
as JSON and as part of a script. Of its quotes a backslash takes all but the first and the last; it
opens no tag and has no control character. It is the quoted text with every `<` written as an
escape; this changes the text of no literal of JSON, for each `<` stands between whole pieces there:
the literal could end before it, and begin behind it. -/
theorem script_reads_back (text : String) :
    (∀ rest, read ((script text).toList ++ rest) = some (text, rest)) ∧
    (∀ rest, readInScript ((script text).toList ++ rest) = some (units text.toList, rest)) ∧
    (∃ body, (script text).toList = '"' :: (body ++ ['"'])) ∧
    (∀ before after, (script text).toList = before ++ '"' :: after →
      (trailingBackslashes before % 2 = 0 ↔ before = [] ∨ after = [])) ∧
    (∀ c ∈ (script text).toList, c ≠ '<' ∧ 0x20 ≤ c.toNat) ∧
    (script text).toList = (quote text).toList.flatMap guardTag ∧
    read (quote text).toList = some (text, []) ∧
    ∀ literal, read literal = some (text, []) →
      read (literal.flatMap guardTag) = some (text, []) ∧
      ∀ before after, literal = before ++ '<' :: after →
        ∃ front back, text = front ++ "<" ++ back ∧ read (before ++ ['"']) = some (front, []) ∧
          read ('"' :: after) = some (back, []) := by
  have found : read (script text).toList = some (text, []) := read_alone (read_script text)
  refine ⟨read_script text, fun rest => readInScript_of_read (read_script text rest),
    ⟨_, toList_script_eq text⟩, fun before after => unescaped_iff_of_read found, fun c member => ?_,
    toList_script text, read_quote_alone text, fun literal standard => ?_⟩
  · obtain ⟨visible, noTag⟩ := visible_of_mem_script member
    exact ⟨noTag, Nat.not_lt.mp visible⟩
  · exact ⟨read_alone (read_guard standard), fun before after => cut_of_read standard⟩

/-- Backslashes before a tag and before a quote, and a character of two units. -/
def crowdedText : String := "\\\\<\\\"😀"

theorem script_crowdedText :
    script crowdedText = "\"\\\\\\\\\\u003c\\\\\\\"😀\"" ∧
    readInScript (script crowdedText).toList =
      some ([0x5c, 0x5c, 0x3c, 0x5c, 0x22, 0xd83d, 0xde00], []) ∧
    trailingBackslashes "\"\\\\\\\\\\u003c\\\\\\".toList % 2 ≠ 0 ∧
    ∃ front back, crowdedText = front ++ "<" ++ back ∧
      read "\"\\\\\\\\\"".toList = some (front, []) ∧
      read "\"\\\\\\\"😀\"".toList = some (back, []) := by
  obtain ⟨-, inScript, -, quotes, -, -, standard, cuts⟩ := script_reads_back crowdedText
  refine ⟨by decide, ?_, ?_, ?_⟩
  · have reads := inScript []
    rwa [List.append_nil] at reads
  · rw [ne_eq, quotes _ "😀\"".toList (by decide)]
    decide
  · exact (cuts _ standard).2 "\"\\\\\\\\".toList "\\\\\\\"😀\"".toList (by decide)

end Pagewright.Text.Literal
