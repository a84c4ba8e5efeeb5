import Pagewright.Proofs.Backslashes
import Pagewright.Text.Literal

set_option autoImplicit false

namespace Pagewright.Text.Literal

def hexDigit? (c : Char) : Option Nat :=
  if '0' ≤ c ∧ c ≤ '9' then some (c.toNat - '0'.toNat)
  else if 'a' ≤ c ∧ c ≤ 'f' then some (c.toNat - 'a'.toNat + 10)
  else if 'A' ≤ c ∧ c ≤ 'F' then some (c.toNat - 'A'.toNat + 10)
  else none

/-- Four hexadecimal digits. -/
def readUnit : List Char → Option (Nat × List Char)
  | a :: b :: c :: d :: rest => do
    let a ← hexDigit? a
    let b ← hexDigit? b
    let c ← hexDigit? c
    let d ← hexDigit? d
    some (((a * 16 + b) * 16 + c) * 16 + d, rest)
  | _ => none

/-- The lower half of a pair of units, an escape of its own. -/
def readLower : List Char → Option (Nat × List Char)
  | '\\' :: 'u' :: rest => readUnit rest
  | _ => none

/-- The character of a unit. The upper half of a pair needs its lower half behind it. -/
def readCode (rest : List Char) (unit : Nat) : Option (Char × List Char) :=
  if 0xd800 ≤ unit ∧ unit < 0xdc00 then
    (readLower rest).bind fun (lower, rest) =>
      if 0xdc00 ≤ lower ∧ lower < 0xe000 then
        some (Char.ofNat (0x10000 + (unit - 0xd800) * 0x400 + (lower - 0xdc00)), rest)
      else none
  else if 0xdc00 ≤ unit ∧ unit < 0xe000 then none
  else some (Char.ofNat unit, rest)

/-- The character that an escape stands for, from what follows the backslash. -/
def readEscape : List Char → Option (Char × List Char)
  | '"' :: rest => some ('"', rest)
  | '\\' :: rest => some ('\\', rest)
  | '/' :: rest => some ('/', rest)
  | 'b' :: rest => some ('\x08', rest)
  | 'f' :: rest => some ('\x0c', rest)
  | 'n' :: rest => some ('\n', rest)
  | 'r' :: rest => some ('\r', rest)
  | 't' :: rest => some ('\t', rest)
  | 'u' :: rest => do
    let (unit, rest) ← readUnit rest
    readCode rest unit
  | _ => none

theorem readUnit_shorter {text rest : List Char} {unit : Nat}
    (success : readUnit text = some (unit, rest)) : rest.length < text.length := by
  unfold readUnit at success
  split at success
  · simp only [Option.bind_eq_bind, Option.bind_eq_some_iff, Option.some.injEq,
      Prod.mk.injEq] at success
    obtain ⟨_, _, _, _, _, _, _, _, _, rfl⟩ := success
    simp only [List.length_cons]
    omega
  · cases success

theorem readLower_shorter {text rest : List Char} {unit : Nat}
    (success : readLower text = some (unit, rest)) : rest.length < text.length := by
  unfold readLower at success
  split at success
  · have shorter := readUnit_shorter success
    simp only [List.length_cons]
    omega
  · cases success

theorem readCode_shorter {text rest : List Char} {unit : Nat} {c : Char}
    (success : readCode text unit = some (c, rest)) : rest.length ≤ text.length := by
  unfold readCode at success
  split at success
  · obtain ⟨⟨lower, after⟩, read, found⟩ := Option.bind_eq_some_iff.mp success
    have shorter := readLower_shorter read
    simp only [Option.ite_none_right_eq_some, Option.some.injEq, Prod.mk.injEq] at found
    obtain ⟨-, -, rfl⟩ := found
    omega
  · simp only [Option.ite_none_left_eq_some, Option.some.injEq, Prod.mk.injEq] at success
    obtain ⟨-, -, rfl⟩ := success
    exact Nat.le_refl _

theorem readEscape_shorter {text rest : List Char} {c : Char}
    (success : readEscape text = some (c, rest)) : rest.length < text.length := by
  unfold readEscape at success
  split at success
  case h_9 behind =>
    obtain ⟨⟨unit, after⟩, read, found⟩ := Option.bind_eq_some_iff.mp success
    have shorter := readUnit_shorter read
    have remaining := readCode_shorter found
    simp only [List.length_cons]
    omega
  case h_10 => cases success
  all_goals
    cases success
    exact Nat.lt_succ_self _

/-- The text up to the closing quote, and what follows the quote. -/
def readBody : List Char → Option (List Char × List Char)
  | [] => none
  | c :: rest =>
    if c = '"' then some ([], rest)
    else if c = '\\' then
      match escaped : readEscape rest with
      | none => none
      | some (d, behind) =>
        have := readEscape_shorter escaped
        (readBody behind).map fun (text, after) => (d :: text, after)
    else if c.toNat < 0x20 then none
    else (readBody rest).map fun (text, after) => (c :: text, after)
termination_by text => text.length

/-- The text of the literal at the front, and what follows the literal. -/
def read : List Char → Option (String × List Char)
  | '"' :: rest => (readBody rest).map fun (text, after) => (String.ofList text, after)
  | _ => none

theorem readBody_quote (rest : List Char) : readBody ('"' :: rest) = some ([], rest) := by
  rw [readBody, if_pos rfl]

theorem readBody_escape {rest behind : List Char} {c : Char}
    (escaped : readEscape rest = some (c, behind)) :
    readBody ('\\' :: rest) = (readBody behind).map fun (text, after) => (c :: text, after) := by
  rw [readBody, if_neg (by decide), if_pos rfl]
  split
  · rename_i failed
    rw [escaped] at failed
    cases failed
  · rename_i found
    rw [escaped] at found
    cases found
    rfl

theorem readBody_plain {c : Char} (rest : List Char) (notQuote : c ≠ '"') (notBackslash : c ≠ '\\')
    (visible : ¬ c.toNat < 0x20) :
    readBody (c :: rest) = (readBody rest).map fun (text, after) => (c :: text, after) := by
  rw [readBody, if_neg notQuote, if_neg notBackslash, if_neg visible]

/-- A hexadecimal digit is no control character, and its value is below sixteen. -/
theorem hexDigit?_bounds {c : Char} {digit : Nat} (found : hexDigit? c = some digit) :
    0x20 ≤ c.toNat ∧ digit < 16 := by
  have code : c.val.toNat = c.toNat := rfl
  simp only [hexDigit?, Char.le_def, UInt32.le_iff_toNat_le, code] at found
  grind

theorem hexDigit?_digitChar {digit : Nat} (small : digit < 16) :
    hexDigit? (Nat.digitChar digit) = some digit := by
  revert digit
  decide

section Grammar

/-- Four hexadecimal digits and the unit that they write. -/
structure Digits (digits : List Char) (unit : Nat) : Prop where
  hexadecimal : ∀ c ∈ digits, (hexDigit? c).isSome = true
  bounded : unit < 0x10000
  reads : ∀ rest, readUnit (digits ++ rest) = some (unit, rest)

/-- The characters that stand for another one behind a backslash. -/
def marks : List (Char × Char) :=
  [('"', '"'), ('\\', '\\'), ('/', '/'), ('b', '\x08'), ('f', '\x0c'), ('n', '\n'), ('r', '\r'),
    ('t', '\t')]

/-- A piece of a literal stands for one character of its text. -/
inductive Denotes : List Char → Char → Prop
  | plain {c : Char} (visible : ¬ c.toNat < 0x20) (notQuote : c ≠ '"') (notBackslash : c ≠ '\\') :
      Denotes [c] c
  | mark {mark c : Char} (listed : (mark, c) ∈ marks) : Denotes ['\\', mark] c
  | unit {digits : List Char} {c : Char} (isUnit : Digits digits c.toNat) :
      Denotes ('\\' :: 'u' :: digits) c
  | pair {first second : List Char} {upper lower : Nat} {c : Char} (isUpper : Digits first upper)
      (isLower : Digits second lower) (high : 0xd800 ≤ upper ∧ upper < 0xdc00)
      (low : 0xdc00 ≤ lower ∧ lower < 0xe000)
      (point : c.toNat = 0x10000 + (upper - 0xd800) * 0x400 + (lower - 0xdc00)) :
      Denotes ('\\' :: 'u' :: (first ++ '\\' :: 'u' :: second)) c

/-- What stands between the quotes of a literal, and the text of the literal. -/
inductive Encodes : List Char → List Char → Prop
  | nil : Encodes [] []
  | cons {piece body text : List Char} {c : Char} (denotes : Denotes piece c)
      (more : Encodes body text) : Encodes (piece ++ body) (c :: text)

theorem digits_of_readUnit {text rest : List Char} {unit : Nat}
    (read : readUnit text = some (unit, rest)) :
    ∃ digits, text = digits ++ rest ∧ Digits digits unit := by
  unfold readUnit at read
  split at read
  · rename_i a b c d behind
    simp only [Option.bind_eq_bind, Option.bind_eq_some_iff, Option.some.injEq,
      Prod.mk.injEq] at read
    obtain ⟨first, readFirst, second, readSecond, third, readThird, fourth, readFourth, rfl, rfl⟩ :=
      read
    refine ⟨[a, b, c, d], rfl, ?_, ?_, fun rest => ?_⟩
    · simp [readFirst, readSecond, readThird, readFourth]
    · have := hexDigit?_bounds readFirst
      have := hexDigit?_bounds readSecond
      have := hexDigit?_bounds readThird
      have := hexDigit?_bounds readFourth
      omega
    · simp only [List.cons_append, List.nil_append, readUnit, readFirst, readSecond, readThird,
        readFourth, Option.bind_eq_bind, Option.bind_some]
  · cases read

theorem digits_of_readLower {text rest : List Char} {unit : Nat}
    (read : readLower text = some (unit, rest)) :
    ∃ digits, text = '\\' :: 'u' :: (digits ++ rest) ∧ Digits digits unit := by
  unfold readLower at read
  split at read
  · obtain ⟨digits, rfl, isUnit⟩ := digits_of_readUnit read
    exact ⟨digits, rfl, isUnit⟩
  · cases read

theorem toNat_ofNat_of_valid {point : Nat} (valid : point.isValidChar) :
    (Char.ofNat point).toNat = point := by
  rw [Char.ofNat, dif_pos valid]
  rfl

theorem denotes_of_readCode {digits text rest : List Char} {unit : Nat} {c : Char}
    (isUnit : Digits digits unit) (read : readCode text unit = some (c, rest)) :
    ∃ piece, '\\' :: 'u' :: (digits ++ text) = piece ++ rest ∧ Denotes piece c := by
  have bounded := isUnit.bounded
  unfold readCode at read
  split at read
  · rename_i high
    obtain ⟨⟨lower, behind⟩, lowerRead, paired⟩ := Option.bind_eq_some_iff.mp read
    obtain ⟨second, rfl, isLower⟩ := digits_of_readLower lowerRead
    simp only [Option.ite_none_right_eq_some, Option.some.injEq, Prod.mk.injEq] at paired
    obtain ⟨low, rfl, rfl⟩ := paired
    have point := toNat_ofNat_of_valid (.inr (by omega) :
      (0x10000 + (unit - 0xd800) * 0x400 + (lower - 0xdc00)).isValidChar)
    exact ⟨_, by simp, .pair isUnit isLower high low point⟩
  · rename_i notUpper
    simp only [Option.ite_none_left_eq_some, Option.some.injEq, Prod.mk.injEq] at read
    obtain ⟨notLower, rfl, rfl⟩ := read
    have point : (Char.ofNat unit).toNat = unit :=
      toNat_ofNat_of_valid (by unfold Nat.isValidChar; omega)
    rw [← point] at isUnit
    exact ⟨_, rfl, .unit isUnit⟩

/-- What the reader takes for an escape is a piece. -/
theorem denotes_of_readEscape {text rest : List Char} {c : Char}
    (read : readEscape text = some (c, rest)) :
    ∃ piece, '\\' :: text = piece ++ rest ∧ Denotes piece c := by
  unfold readEscape at read
  split at read
  case h_9 =>
    obtain ⟨⟨unit, after⟩, unitRead, found⟩ := Option.bind_eq_some_iff.mp read
    obtain ⟨digits, rfl, isUnit⟩ := digits_of_readUnit unitRead
    exact denotes_of_readCode isUnit found
  case h_10 => cases read
  all_goals
    cases read
    exact ⟨['\\', _], rfl, .mark (by decide)⟩

theorem readEscape_mark {mark c : Char} (listed : (mark, c) ∈ marks) (rest : List Char) :
    readEscape (mark :: rest) = some (c, rest) := by
  have each : ∀ entry ∈ marks, readEscape (entry.1 :: rest) = some (entry.2, rest) := by
    simp only [marks, List.forall_mem_cons]
    exact ⟨rfl, rfl, rfl, rfl, rfl, rfl, rfl, rfl, List.forall_mem_nil _⟩
  exact each _ listed

theorem readEscape_unit {digits : List Char} {unit : Nat} (isUnit : Digits digits unit)
    (rest : List Char) : readEscape ('u' :: (digits ++ rest)) = readCode rest unit := by
  simp only [readEscape, isUnit.reads, Option.bind_eq_bind, Option.bind_some]

/-- The reader takes a piece for its character. -/
theorem Denotes.reads {piece : List Char} {c : Char} (denotes : Denotes piece c)
    (rest : List Char) :
    readBody (piece ++ rest) = (readBody rest).map fun (text, after) => (c :: text, after) := by
  cases denotes with
  | plain visible notQuote notBackslash => exact readBody_plain rest notQuote notBackslash visible
  | mark listed => exact readBody_escape (readEscape_mark listed rest)
  | unit isUnit =>
    -- No character is half of a pair.
    have single : c.toNat < 0xd800 ∨ 0xdfff < c.toNat ∧ c.toNat < 0x110000 := c.valid
    have code : readCode rest c.toNat = some (c, rest) := by
      rw [readCode, if_neg (by omega), if_neg (by omega), Char.ofNat_toNat]
    exact readBody_escape ((readEscape_unit isUnit rest).trans code)
  | @pair first second upper lower _ isUpper isLower high low point =>
    have lowerRead : readLower ('\\' :: 'u' :: (second ++ rest)) = some (lower, rest) :=
      isLower.reads rest
    have code : readCode ('\\' :: 'u' :: (second ++ rest)) upper = some (c, rest) := by
      rw [readCode, if_pos high, lowerRead, Option.bind_some]
      simp only [low, and_self, if_true, ← point, Char.ofNat_toNat]
    have escaped := (readEscape_unit isUpper ('\\' :: 'u' :: (second ++ rest))).trans code
    simpa only [List.cons_append, List.append_assoc] using readBody_escape escaped

theorem encodes_of_readBody {literal text rest : List Char}
    (read : readBody literal = some (text, rest)) :
    ∃ body, literal = body ++ '"' :: rest ∧ Encodes body text := by
  fun_induction readBody literal generalizing text with
  | case1 => cases read
  | case2 =>
    cases read
    exact ⟨[], rfl, .nil⟩
  | case3 => cases read
  | case4 escape c behind escaped shorter notQuote ih =>
    obtain ⟨⟨others, tail⟩, more, same⟩ := Option.map_eq_some_iff.mp read
    cases same
    obtain ⟨body, rfl, encodes⟩ := ih more
    obtain ⟨piece, whole, denotes⟩ := denotes_of_readEscape escaped
    exact ⟨piece ++ body, by rw [whole, List.append_assoc], .cons denotes encodes⟩
  | case5 => cases read
  | case6 c behind notQuote notBackslash visible ih =>
    obtain ⟨⟨others, tail⟩, more, same⟩ := Option.map_eq_some_iff.mp read
    cases same
    obtain ⟨body, rfl, encodes⟩ := ih more
    exact ⟨[c] ++ body, rfl, .cons (.plain visible notQuote notBackslash) encodes⟩

theorem Encodes.reads {body text : List Char} (encodes : Encodes body text) (rest : List Char) :
    readBody (body ++ '"' :: rest) = some (text, rest) := by
  induction encodes with
  | nil => exact readBody_quote rest
  | cons denotes more ih => rw [List.append_assoc, denotes.reads, ih, Option.map_some]

/-- The reader takes exactly the literals of the grammar. -/
theorem read_eq_some_iff {literal rest : List Char} {text : String} :
    read literal = some (text, rest) ↔
      ∃ body, literal = '"' :: (body ++ '"' :: rest) ∧ Encodes body text.toList := by
  constructor
  · intro found
    unfold read at found
    split at found
    · obtain ⟨⟨chars, after⟩, inside, same⟩ := Option.map_eq_some_iff.mp found
      cases same
      obtain ⟨body, rfl, encodes⟩ := encodes_of_readBody inside
      exact ⟨body, rfl, by rwa [String.toList_ofList]⟩
    · cases found
  · rintro ⟨body, rfl, encodes⟩
    simp only [read, encodes.reads, Option.map_some, String.ofList_toList]

end Grammar

section Pieces

variable {piece : List Char} {c : Char}

/-- What no hexadecimal digit is does not occur in a unit. -/
theorem Digits.not_mem {digits : List Char} {unit : Nat} (isUnit : Digits digits unit)
    (other : hexDigit? c = none) : c ∉ digits := by
  intro member
  have digit := isUnit.hexadecimal c member
  rw [other] at digit
  cases digit

theorem Digits.visible {digits : List Char} {unit : Nat} (isUnit : Digits digits unit) :
    ∀ d ∈ '\\' :: 'u' :: digits, ¬ d.toNat < 0x20 := by
  have each : ∀ d ∈ digits, ¬ d.toNat < 0x20 := by
    intro d member
    obtain ⟨digit, found⟩ := Option.isSome_iff_exists.mp (isUnit.hexadecimal d member)
    exact Nat.not_lt.mpr (hexDigit?_bounds found).1
  exact List.forall_mem_cons.mpr ⟨by decide, List.forall_mem_cons.mpr ⟨by decide, each⟩⟩

/-- What begins no escape and is no hexadecimal digit is a piece by itself, or the mark of an
escape. -/
theorem Denotes.eq_of_mem {d : Char} (denotes : Denotes piece c) (member : d ∈ piece)
    (notDigit : hexDigit? d = none) (others : d ∉ ['\\', 'u']) :
    (piece = [d] ∧ c = d) ∨ piece = ['\\', d] ∧ (d, c) ∈ marks := by
  rw [List.mem_cons, List.mem_singleton, not_or] at others
  obtain ⟨notBackslash, notUnit⟩ := others
  cases denotes with
  | plain =>
    obtain rfl := List.mem_singleton.mp member
    exact .inl ⟨rfl, rfl⟩
  | mark listed =>
    obtain rfl : d = _ := by simpa [notBackslash] using member
    exact .inr ⟨rfl, listed⟩
  | unit isUnit => simp [notBackslash, notUnit, isUnit.not_mem notDigit] at member
  | pair isUpper isLower =>
    simp [notBackslash, notUnit, isUpper.not_mem notDigit, isLower.not_mem notDigit] at member

theorem Denotes.eq_of_quote_mem (denotes : Denotes piece c) (member : '"' ∈ piece) :
    piece = ['\\', '"'] := by
  rcases denotes.eq_of_mem member (by decide) (by decide) with ⟨rfl, -⟩ | ⟨rfl, -⟩
  · cases denotes with
    | plain visible notQuote => exact absurd rfl notQuote
  · rfl

theorem Denotes.eq_of_lessThan_mem (denotes : Denotes piece c) (member : '<' ∈ piece) :
    piece = ['<'] ∧ c = '<' := by
  rcases denotes.eq_of_mem member (by decide) (by decide) with itself | ⟨-, listed⟩
  · exact itself
  · simp [marks] at listed

theorem Denotes.visible (denotes : Denotes piece c) : ∀ d ∈ piece, ¬ d.toNat < 0x20 := by
  cases denotes with
  | plain visible => exact List.forall_mem_singleton.mpr visible
  | mark listed =>
    have each : ∀ entry ∈ marks, ¬ entry.1.toNat < 0x20 := by decide
    exact List.forall_mem_cons.mpr ⟨by decide, List.forall_mem_singleton.mpr (each _ listed)⟩
  | unit isUnit => exact isUnit.visible
  | @pair first second _ _ _ isUpper isLower =>
    change ∀ d ∈ '\\' :: 'u' :: first ++ '\\' :: 'u' :: second, ¬ d.toNat < 0x20
    exact List.forall_mem_append.mpr ⟨isUpper.visible, isLower.visible⟩

theorem Digits.trailingBackslashes_append {digits : List Char} {unit : Nat}
    (isUnit : Digits digits unit) (text : List Char) :
    trailingBackslashes ('\\' :: 'u' :: (digits ++ text)) % 2 = trailingBackslashes text % 2 := by
  have plain : ∀ d ∈ digits, d ≠ '\\' := by
    rintro d member rfl
    exact isUnit.not_mem (by decide) member
  rw [trailingBackslashes_escape, trailingBackslashes_plain plain]

/-- No backslash of a piece takes what follows the piece. -/
theorem Denotes.trailingBackslashes_append (denotes : Denotes piece c) (text : List Char) :
    trailingBackslashes (piece ++ text) % 2 = trailingBackslashes text % 2 := by
  cases denotes with
  | plain visible notQuote notBackslash =>
    rw [List.singleton_append, trailingBackslashes_cons notBackslash]
  | @mark mark _ listed => exact trailingBackslashes_escape mark text
  | unit isUnit => exact isUnit.trailingBackslashes_append text
  | pair isUpper isLower =>
    simp only [List.cons_append, List.append_assoc]
    rw [isUpper.trailingBackslashes_append, isLower.trailingBackslashes_append]

end Pieces

section Bodies

variable {body before after text : List Char} {d : Char}

theorem Encodes.visible (encodes : Encodes body text) : ∀ c ∈ body, ¬ c.toNat < 0x20 := by
  induction encodes with
  | nil => exact List.forall_mem_nil _
  | cons denotes more ih => exact List.forall_mem_append.mpr ⟨denotes.visible, ih⟩

theorem Encodes.trailingBackslashes_append (encodes : Encodes body text) (rest : List Char) :
    trailingBackslashes (body ++ rest) % 2 = trailingBackslashes rest % 2 := by
  induction encodes with
  | nil => rfl
  | cons denotes more ih => rw [List.append_assoc, denotes.trailingBackslashes_append, ih]

/-- A character of two texts is one of the second, or one of the first. -/
theorem append_eq_append_cons {first second : List Char}
    (whole : first ++ second = before ++ d :: after) :
    (∃ rest, before = first ++ rest ∧ second = rest ++ d :: after) ∨
      ∃ rest, first = before ++ d :: rest ∧ after = rest ++ second := by
  rcases List.append_eq_append_iff.mp whole with inSecond | ⟨rest, same, behind⟩
  · exact .inl inSecond
  · cases rest with
    | nil => exact .inl ⟨[], by simpa using same.symm, behind.symm⟩
    | cons e rest =>
      obtain ⟨rfl, rfl⟩ := List.cons.inj behind
      exact .inr ⟨rest, same, rfl⟩

/-- Every character of a body is in a piece, which a body stands before and a body behind. -/
theorem Encodes.exists_piece (encodes : Encodes (before ++ d :: after) text) :
    ∃ ahead start stop behind front c back, before = ahead ++ start ∧ after = stop ++ behind ∧
      text = front ++ c :: back ∧ Encodes ahead front ∧ Denotes (start ++ d :: stop) c ∧
      Encodes behind back := by
  generalize whole : before ++ d :: after = body at encodes
  induction encodes generalizing before with
  | nil => simp at whole
  | @cons piece body text c denotes more ih =>
    rcases append_eq_append_cons whole.symm with ⟨rest, rfl, inBody⟩ | ⟨stop, rfl, rfl⟩
    · obtain ⟨ahead, start, stop, behind, front, e, back, rfl, rfl, rfl, encodes, holds⟩ :=
        ih inBody.symm
      exact ⟨piece ++ ahead, start, stop, behind, c :: front, e, back, by simp, rfl, rfl,
        .cons denotes encodes, holds⟩
    · exact ⟨[], before, stop, body, [], c, text, rfl, rfl, rfl, .nil, denotes, more⟩

/-- A backslash takes every quote between those of a literal. -/
theorem Encodes.odd_before_quote (encodes : Encodes (before ++ '"' :: after) text) :
    trailingBackslashes before % 2 = 1 := by
  obtain ⟨ahead, start, stop, behind, front, c, back, rfl, -, -, first, denotes, -⟩ :=
    encodes.exists_piece
  have escape := denotes.eq_of_quote_mem List.mem_append_cons_self
  obtain ⟨start, rfl, rfl, rfl⟩ : ∃ more, start = '\\' :: more ∧ more = [] ∧ stop = [] := by
    simpa [List.append_eq_cons_iff, List.cons_eq_append_iff] using escape
  rw [first.trailingBackslashes_append]
  rfl

/-- The only quotes of a literal that no backslash takes are the first and the last character. -/
theorem Encodes.unescaped_iff (encodes : Encodes body text)
    (whole : '"' :: (body ++ ['"']) = before ++ '"' :: after) :
    trailingBackslashes before % 2 = 0 ↔ before = [] ∨ after = [] := by
  cases before with
  | nil => simp [trailingBackslashes]
  | cons c inner =>
    obtain ⟨rfl, inside⟩ := List.cons.inj whole
    rw [trailingBackslashes_cons (by decide)]
    rcases append_eq_append_cons inside with ⟨rest, rfl, last⟩ | ⟨rest, rfl, rfl⟩
    · have atEnd : rest = [] ∧ after = [] := by
        cases rest with
        | nil => exact ⟨rfl, (List.cons.inj last).2.symm⟩
        | cons => simp at last
      rw [atEnd.1, atEnd.2, encodes.trailingBackslashes_append]
      simp [trailingBackslashes]
    · rw [encodes.odd_before_quote]
      simp

/-- A tag's opening character stands for itself: a literal can be cut there. -/
theorem Encodes.cut (encodes : Encodes (before ++ '<' :: after) text) :
    ∃ front back, text = front ++ '<' :: back ∧ Encodes before front ∧ Encodes after back := by
  obtain ⟨ahead, start, stop, behind, front, c, back, rfl, rfl, rfl, first, denotes, second⟩ :=
    encodes.exists_piece
  obtain ⟨alone, rfl⟩ := denotes.eq_of_lessThan_mem List.mem_append_cons_self
  obtain ⟨rfl, rfl⟩ : start = [] ∧ stop = [] := by
    simpa [List.append_eq_cons_iff] using alone
  exact ⟨front, back, rfl, by rwa [List.append_nil], second⟩

end Bodies

section Writing

/-- Characters that are written in pieces of their own make up the body of a literal. -/
theorem Encodes.flatMap {write : Char → List Char} (denotes : ∀ c, Denotes (write c) c)
    (text : List Char) : Encodes (text.flatMap write) text := by
  induction text with
  | nil => exact .nil
  | cons c text ih => exact .cons (denotes c) ih

theorem digits_byte {value : Nat} (small : value < 0x100) :
    Digits ['0', '0', Nat.digitChar (value / 16), Nat.digitChar (value % 16)] value := by
  have zero : hexDigit? '0' = some 0 := by decide
  have upper : hexDigit? (Nat.digitChar (value / 16)) = some (value / 16) :=
    hexDigit?_digitChar (by omega)
  have lower : hexDigit? (Nat.digitChar (value % 16)) = some (value % 16) :=
    hexDigit?_digitChar (by omega)
  have sum : ((0 * 16 + 0) * 16 + value / 16) * 16 + value % 16 = value := by omega
  refine ⟨?_, by omega, fun rest => ?_⟩
  · simp [zero, upper, lower]
  · simp only [List.cons_append, List.nil_append, readUnit, zero, upper, lower, Option.bind_eq_bind,
      Option.bind_some, sum]

theorem denotes_escape (c : Char) : Denotes (escape c) c := by
  unfold escape
  split
  case h_8 notQuote notBackslash _ _ _ _ _ =>
    by_cases control : c.toNat < 0x20
    · rw [if_pos control]
      exact .unit (digits_byte (by omega))
    · rw [if_neg control]
      exact .plain control notQuote notBackslash
  all_goals exact .mark (by decide)

/-- The reader gives back the text of a quoted literal, whatever follows it. -/
theorem read_quote (text : String) (rest : List Char) :
    read ((quote text).toList ++ rest) = some (text, rest) := by
  refine read_eq_some_iff.mpr ⟨_, ?_, .flatMap denotes_escape text.toList⟩
  simp [toList_quote]

/-- A literal that is read before everything is read before nothing. -/
theorem read_alone {literal : List Char} {text : String}
    (reads : ∀ rest, read (literal ++ rest) = some (text, rest)) :
    read literal = some (text, []) := by
  have whole := reads []
  rwa [List.append_nil] at whole

theorem read_quote_alone (text : String) : read (quote text).toList = some (text, []) :=
  read_alone (read_quote text)

end Writing

end Pagewright.Text.Literal
