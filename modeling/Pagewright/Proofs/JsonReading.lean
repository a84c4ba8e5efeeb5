import Pagewright.Json
import Pagewright.Proofs.Delimiting
import Pagewright.Proofs.Readers

set_option autoImplicit false

namespace Pagewright

open Text

namespace Json

/-- A part of the text of a value. -/
inductive Mark where
  | openArray | closeArray | openObject | closeObject | comma | colon | null
  | number (value : Nat)
  | string (text : String)
deriving DecidableEq, Repr

section Reading

def isBlank (c : Char) : Bool := c == ' ' || c == '\n' || c == '\r' || c == '\t'

def skipBlank (text : List Char) : List Char := text.dropWhile isBlank

/-- The mark at the front. Of numbers there are only naturals. -/
def readMark : List Char → Option (Mark × List Char)
  | '[' :: rest => some (.openArray, rest)
  | ']' :: rest => some (.closeArray, rest)
  | '{' :: rest => some (.openObject, rest)
  | '}' :: rest => some (.closeObject, rest)
  | ',' :: rest => some (.comma, rest)
  | ':' :: rest => some (.colon, rest)
  | 'n' :: 'u' :: 'l' :: 'l' :: rest => some (.null, rest)
  | '"' :: rest => (Literal.read ('"' :: rest)).map fun (text, back) => (.string text, back)
  | rest => (readNumber rest).map fun (value, back) => (.number value, back)

/-- All marks of a text, and what is left of it. -/
def scan (text : List Char) : List Mark × List Char :=
  readMany (fun text => (readMark text).map fun (mark, rest) => (mark, skipBlank rest))
    (skipBlank text)

/-- An array or an object that is not closed yet, with what stands in it so far, the last part
first. A member whose value is not read yet is named by its key. -/
inductive Open where
  | array (items : List Json)
  | object (members : List (String × Json)) (key : String)

/-- What the next mark may be, with what is open, the innermost part first. -/
inductive State where
  /-- The beginning of a value; behind an opening bracket, also the closing one. -/
  | value (opened : List Open)
  /-- A key; behind an opening brace, also the closing one. -/
  | key (members : List (String × Json)) (opened : List Open)
  | colon (members : List (String × Json)) (key : String) (opened : List Open)
  /-- What may follow the value. -/
  | behind (value : Json) (opened : List Open)

def State.next : State → Mark → Option State
  | .value opened, .null => some (.behind .null opened)
  | .value opened, .number amount => some (.behind (.number amount) opened)
  | .value opened, .string text => some (.behind (.string text) opened)
  | .value opened, .openArray => some (.value (.array [] :: opened))
  | .value opened, .openObject => some (.key [] opened)
  | .value (.array [] :: opened), .closeArray => some (.behind (.array []) opened)
  | .key members opened, .string name => some (.colon members name opened)
  | .key [] opened, .closeObject => some (.behind (.object []) opened)
  | .colon members name opened, .colon => some (.value (.object members name :: opened))
  | .behind item (.array items :: opened), .comma =>
    some (.value (.array (item :: items) :: opened))
  | .behind item (.array items :: opened), .closeArray =>
    some (.behind (.array (item :: items).reverse) opened)
  | .behind item (.object members name :: opened), .comma =>
    some (.key ((name, item) :: members) opened)
  | .behind item (.object members name :: opened), .closeObject =>
    some (.behind (.object ((name, item) :: members).reverse) opened)
  | _, _ => none

/-- The value of a text that holds one value and nothing else. -/
def read (text : String) : Option Json :=
  match scan text.toList with
  | (marks, []) =>
    match marks.foldlM State.next (.value []) with
    | some (.behind value []) => some value
    | _ => none
  | _ => none

end Reading

section Marks

mutual

/-- What the text of a value is made of. -/
def marks : Json → List Mark
  | .null => [.null]
  | .number value => [.number value]
  | .string text => [.string text]
  | .array [] => [.openArray, .closeArray]
  | .array (first :: rest) => [.openArray] ++ first.marks ++ marksItems rest ++ [.closeArray]
  | .object [] => [.openObject, .closeObject]
  | .object (first :: rest) =>
    [.openObject] ++ marksMember first ++ marksMembers rest ++ [.closeObject]

/-- The items behind the first. -/
def marksItems : List Json → List Mark
  | [] => []
  | item :: rest => [.comma] ++ item.marks ++ marksItems rest

def marksMember : String × Json → List Mark
  | (key, value) => [.string key, .colon] ++ value.marks

/-- The members behind the first. -/
def marksMembers : List (String × Json) → List Mark
  | [] => []
  | member :: rest => [.comma] ++ marksMember member ++ marksMembers rest

end

/-- The text has these marks, whatever follows it. -/
def Scans (text : String) (marks : List Mark) : Prop :=
  ∀ rest, scan (text.toList ++ rest) = (marks ++ (scan rest).1, (scan rest).2)

/-- A number in front of the text ends where the text begins. -/
def NoDigit (text : List Char) : Prop := ∀ c ∈ text.head?, c.isDigit = false

/-- The text has these marks, if no digit follows it. -/
def ScansBefore (text : String) (marks : List Mark) : Prop :=
  ∀ rest, NoDigit rest → scan (text.toList ++ rest) = (marks ++ (scan rest).1, (scan rest).2)

theorem NoDigit.append {first second : List Char} (front : NoDigit first) (back : NoDigit second) :
    NoDigit (first ++ second) := by
  cases first with
  | nil => exact back
  | cons c first => exact front

section Texts

variable {first second : String} {left right : List Mark}

theorem Scans.append (front : Scans first left) (back : Scans second right) :
    Scans (first ++ second) (left ++ right) := by
  intro rest
  rw [String.toList_append, List.append_assoc, front, back, List.append_assoc]

theorem Scans.before (scans : Scans first left) : ScansBefore first left :=
  fun rest _ => scans rest

theorem Scans.append_before (front : Scans first left) (back : ScansBefore second right) :
    ScansBefore (first ++ second) (left ++ right) := by
  intro rest stops
  rw [String.toList_append, List.append_assoc, front, back rest stops, List.append_assoc]

theorem ScansBefore.append (front : ScansBefore first left) (back : ScansBefore second right)
    (stops : NoDigit second.toList) : ScansBefore (first ++ second) (left ++ right) := by
  intro rest noDigit
  rw [String.toList_append, List.append_assoc, front _ (stops.append noDigit), back rest noDigit,
    List.append_assoc]

theorem length_skipBlank_le (text : List Char) : (skipBlank text).length ≤ text.length :=
  (List.dropWhile_sublist _).length_le

/-- A mark is scanned off if it is read off and no blank is before it. -/
theorem scan_append {text rest : List Char} {mark : Mark} (filled : text ≠ [])
    (visible : ∀ c ∈ text.head?, isBlank c = false)
    (read : readMark (text ++ rest) = some (mark, rest)) :
    scan (text ++ rest) = (mark :: (scan rest).1, (scan rest).2) := by
  have unskipped : skipBlank (text ++ rest) = text ++ rest := by
    cases text with
    | nil => exact (filled rfl).elim
    | cons c text => exact List.dropWhile_cons_of_neg (by simp [visible c rfl])
  have shorter : (skipBlank rest).length < (text ++ rest).length := by
    have positive := List.length_pos_iff.mpr filled
    have atMost := length_skipBlank_le rest
    rw [List.length_append]
    omega
  rw [scan, unskipped, readMany_of_some (by rw [read]; rfl) shorter]
  rfl

/-- A fixed mark is the same mark before every text. -/
theorem scans_fixed {c : Char} {text : List Char} {mark : Mark} (visible : isBlank c = false)
    (read : ∀ rest, readMark (c :: text ++ rest) = some (mark, rest)) :
    Scans (String.ofList (c :: text)) [mark] := by
  intro rest
  rw [String.toList_ofList]
  exact scan_append (List.cons_ne_nil _ _) (by rintro d ⟨⟩; exact visible) (read rest)

theorem scans_blank {text : String} (blanks : ∀ c ∈ text.toList, isBlank c = true) :
    Scans text [] := by
  intro rest
  have skipped : skipBlank (text.toList ++ rest) = skipBlank rest :=
    List.dropWhile_append_of_pos blanks
  rw [scan, skipped]
  rfl

theorem scans_newLine (depth : Nat) : Scans (newLine depth) [] := by
  refine scans_blank fun c member => ?_
  simp only [newLine, String.toList_append, String.toList_ofList, List.mem_append,
    List.mem_replicate] at member
  rcases member with lineFeed | ⟨-, rfl⟩
  · cases List.mem_singleton.mp lineFeed
    rfl
  · rfl

theorem scans_quote (text : String) : Scans (Literal.quote text) [.string text] := by
  intro rest
  have read := Literal.read_quote text rest
  rw [Literal.toList_quote] at read ⊢
  refine scan_append (List.cons_ne_nil _ _) (by rintro c ⟨⟩; rfl) ?_
  rw [List.cons_append, readMark, ← List.cons_append, read, Option.map_some]

theorem readMark_digit {c : Char} (digit : c.isDigit = true) (rest : List Char) :
    readMark (c :: rest) =
      (readNumber (c :: rest)).map fun (value, back) => (.number value, back) := by
  unfold readMark
  split
  case h_9 => rfl
  all_goals
    rename_i same
    cases same
    exact absurd digit (by decide)

theorem not_isBlank_of_isDigit {c : Char} (digit : c.isDigit = true) : isBlank c = false := by
  rw [Bool.eq_false_iff]
  intro blank
  simp only [isBlank, Bool.or_eq_true, beq_iff_eq] at blank
  rcases blank with ((rfl | rfl) | rfl) | rfl <;> exact absurd digit (by decide)

theorem scansBefore_toString (value : Nat) : ScansBefore (toString value) [.number value] := by
  intro rest stops
  have read := readNumber_append value stops
  have digits : ∀ c ∈ (toString value).toList, c.isDigit = true := by
    rw [Nat.toString_eq_repr, Nat.toList_repr]
    exact fun c => Nat.isDigit_of_mem_toDigits (by decide) (by decide)
  cases chars : (toString value).toList with
  | nil =>
    rw [Nat.toString_eq_repr, Nat.toList_repr] at chars
    exact (Nat.toDigits_ne_nil chars).elim
  | cons c others =>
    rw [chars] at read digits
    have digit := digits c (.head _)
    refine scan_append (List.cons_ne_nil _ _) ?_ ?_
    · rintro d ⟨⟩
      exact not_isBlank_of_isDigit digit
    · rw [List.cons_append, readMark_digit digit, ← List.cons_append, read, Option.map_some]

end Texts

theorem noDigit_of_heads {c : Char} {text : String} (heads : Heads c text)
    (noDigit : c.isDigit = false) : NoDigit text.toList := by
  intro d first
  cases heads.symm.trans first
  exact noDigit

theorem noDigit_newLine (depth : Nat) : NoDigit (newLine depth).toList :=
  noDigit_of_heads ((heads_ofList rfl : Heads '\n' "\n").append _) rfl

theorem noDigit_renderItems (depth : Nat) (items : List Json) :
    NoDigit (renderItems depth items).toList := by
  cases items with
  | nil => exact fun c member => nomatch member
  | cons item rest =>
    exact noDigit_of_heads ((((heads_ofList rfl : Heads ',' ",").append _).append _).append _) rfl

theorem noDigit_renderMembers (depth : Nat) (members : List (String × Json)) :
    NoDigit (renderMembers depth members).toList := by
  cases members with
  | nil => exact fun c member => nomatch member
  | cons member rest =>
    exact noDigit_of_heads ((((heads_ofList rfl : Heads ',' ",").append _).append _).append _) rfl

/-- A bracket behind a new line. -/
theorem ScansBefore.closed {text closing : String} {marks : List Mark} {mark : Mark}
    (scans : ScansBefore text marks) (depth : Nat) (ends : Scans closing [mark])
    (noDigit : NoDigit closing.toList) :
    ScansBefore (text ++ newLine depth ++ closing) (marks ++ [mark]) := by
  have front := scans.append (scans_newLine depth).before (noDigit_newLine depth)
  rw [List.append_nil] at front
  exact front.append ends.before noDigit

theorem scans_openArray : Scans "[" [.openArray] :=
  scans_fixed rfl fun _ => rfl

theorem scans_closeArray : Scans "]" [.closeArray] :=
  scans_fixed rfl fun _ => rfl

theorem scans_openObject : Scans "\x7b" [.openObject] :=
  scans_fixed rfl fun _ => rfl

theorem scans_closeObject : Scans "\x7d" [.closeObject] :=
  scans_fixed rfl fun _ => rfl

theorem scans_comma : Scans "," [.comma] := scans_fixed rfl fun _ => rfl

theorem scans_colon : Scans ": " [.colon] :=
  (scans_fixed rfl fun _ => rfl : Scans ":" [.colon]).append
    (scans_blank (List.all_eq_true.mp rfl) : Scans " " [])

mutual

/-- The marks of a value are those of its text. -/
theorem scansBefore_render (depth : Nat) : (value : Json) →
    ScansBefore (value.render depth) value.marks
  | .null => (scans_fixed rfl fun _ => rfl).before
  | .number value => scansBefore_toString value
  | .string text => (scans_quote text).before
  | .array [] => (scans_openArray.append scans_closeArray).before
  | .array (first :: rest) =>
    (((scans_openArray.append (scans_newLine (depth + 1))).append_before
      (scansBefore_render (depth + 1) first)).append (scansBefore_renderItems depth rest)
        (noDigit_renderItems depth rest)).closed depth scans_closeArray
          (noDigit_of_heads (heads_ofList rfl) rfl)
  | .object [] => (scans_openObject.append scans_closeObject).before
  | .object (first :: rest) =>
    (((scans_openObject.append (scans_newLine (depth + 1))).append_before
      (scansBefore_renderMember depth first)).append (scansBefore_renderMembers depth rest)
        (noDigit_renderMembers depth rest)).closed depth scans_closeObject
          (noDigit_of_heads (heads_ofList rfl) rfl)

theorem scansBefore_renderItems (depth : Nat) : (items : List Json) →
    ScansBefore (renderItems depth items) (marksItems items)
  | [] => fun _ _ => rfl
  | item :: rest =>
    ((scans_comma.append (scans_newLine (depth + 1))).append_before
      (scansBefore_render (depth + 1) item)).append (scansBefore_renderItems depth rest)
        (noDigit_renderItems depth rest)

theorem scansBefore_renderMember (depth : Nat) : (member : String × Json) →
    ScansBefore (renderMember depth member) (marksMember member)
  | (key, value) =>
    ((scans_quote key).append scans_colon).append_before (scansBefore_render (depth + 1) value)

theorem scansBefore_renderMembers (depth : Nat) : (members : List (String × Json)) →
    ScansBefore (renderMembers depth members) (marksMembers members)
  | [] => fun _ _ => rfl
  | member :: rest =>
    ((scans_comma.append (scans_newLine (depth + 1))).append_before
      (scansBefore_renderMember depth member)).append (scansBefore_renderMembers depth rest)
        (noDigit_renderMembers depth rest)

end

end Marks

section Building

mutual

/-- The marks of a value build it, on top of what is open. -/
theorem foldlM_marks : (value : Json) → (opened : List Open) →
    value.marks.foldlM State.next (.value opened) = some (.behind value opened)
  | .null, _ => rfl
  | .number _, _ => rfl
  | .string _, _ => rfl
  | .array [], _ => rfl
  | .array (first :: rest), opened => by
    have begun : [Mark.openArray].foldlM State.next (.value opened) =
        some (.value (.array [] :: opened)) := rfl
    rw [marks, List.append_assoc, List.foldlM_append, List.foldlM_append, begun,
      Option.bind_eq_bind, Option.bind_some, foldlM_marks first]
    exact foldlM_marksItems rest first [] opened
  | .object [], _ => rfl
  | .object (first :: rest), opened => by
    have begun : [Mark.openObject].foldlM State.next (.value opened) = some (.key [] opened) := rfl
    rw [marks, List.append_assoc, List.foldlM_append, List.foldlM_append, begun,
      Option.bind_eq_bind, Option.bind_some, foldlM_marksMember first]
    exact foldlM_marksMembers rest first [] opened

/-- Behind an item, further ones belong to the same array. -/
theorem foldlM_marksItems : (rest : List Json) → (item : Json) → (items : List Json) →
    (opened : List Open) →
    (marksItems rest ++ [Mark.closeArray]).foldlM State.next
        (.behind item (.array items :: opened)) =
      some (.behind (.array (items.reverse ++ item :: rest)) opened)
  | [], item, items, opened => by simp [marksItems, State.next]
  | next :: rest, item, items, opened => by
    have comma : [Mark.comma].foldlM State.next (.behind item (.array items :: opened)) =
        some (.value (.array (item :: items) :: opened)) := rfl
    rw [marksItems, List.append_assoc, List.foldlM_append, List.foldlM_append, comma,
      Option.bind_eq_bind, Option.bind_some, foldlM_marks next, Option.bind_some,
      foldlM_marksItems rest next, List.reverse_cons, List.append_assoc]
    rfl

theorem foldlM_marksMember : (member : String × Json) → (members : List (String × Json)) →
    (opened : List Open) →
    (marksMember member).foldlM State.next (.key members opened) =
      some (.behind member.2 (.object members member.1 :: opened))
  | (key, value), members, opened => by
    have named : [Mark.string key, Mark.colon].foldlM State.next (.key members opened) =
        some (.value (.object members key :: opened)) := rfl
    rw [marksMember, List.foldlM_append, named, Option.bind_eq_bind, Option.bind_some,
      foldlM_marks value]

/-- Behind a member, further ones belong to the same object. -/
theorem foldlM_marksMembers : (rest : List (String × Json)) → (member : String × Json) →
    (members : List (String × Json)) → (opened : List Open) →
    (marksMembers rest ++ [Mark.closeObject]).foldlM State.next
        (.behind member.2 (.object members member.1 :: opened)) =
      some (.behind (.object (members.reverse ++ member :: rest)) opened)
  | [], member, members, opened => by simp [marksMembers, State.next]
  | next :: rest, member, members, opened => by
    have comma : [Mark.comma].foldlM State.next
        (.behind member.2 (.object members member.1 :: opened)) =
        some (.key (member :: members) opened) := rfl
    rw [marksMembers, List.append_assoc, List.foldlM_append, List.foldlM_append, comma,
      Option.bind_eq_bind, Option.bind_some, foldlM_marksMember next, Option.bind_some,
      foldlM_marksMembers rest next, List.reverse_cons, List.append_assoc]
    rfl

end

end Building

/-- Reading undoes the text of a value. -/
theorem read_pretty (value : Json) : read value.pretty = some value := by
  have scanned := scansBefore_render 0 value [] (fun c first => nomatch first)
  have empty : scan [] = ([], []) := readMany_of_none rfl
  rw [List.append_nil, empty, List.append_nil] at scanned
  simp only [read, pretty, scanned, foldlM_marks]

end Json

end Pagewright
