import Pagewright.Proofs.ScriptLines

set_option autoImplicit false

namespace Pagewright

open Text

/-- Where a reader of a script stands: outside of literals, inside one, or there behind a
backslash. -/
inductive Region where
  | code | literal | escape
deriving DecidableEq, Repr

namespace Region

def next : Region → Char → Region
  | .code, c => if c = '"' then .literal else .code
  | .literal, c => if c = '"' then .code else if c = '\\' then .escape else .literal
  | .escape, _ => .literal

/-- Of a literal only the quotes are kept. -/
def keeps : Region → Char → Bool
  | .code, _ => true
  | .literal, c => c == '"'
  | .escape, _ => false

end Region

/-- What is kept of a text when its literals are emptied, and where its scan ends. -/
def scanCode (region : Region) : List Char → List Char × Region
  | [] => ([], region)
  | c :: rest =>
    let behind := scanCode (region.next c) rest
    (if region.keeps c then c :: behind.1 else behind.1, behind.2)

theorem scanCode_cons (region : Region) (c : Char) (rest : List Char) :
    scanCode region (c :: rest) =
      (if region.keeps c then c :: (scanCode (region.next c) rest).1
        else (scanCode (region.next c) rest).1, (scanCode (region.next c) rest).2) := rfl

theorem scanCode_append (region : Region) (first second : List Char) :
    scanCode region (first ++ second) =
      ((scanCode region first).1 ++ (scanCode (scanCode region first).2 second).1,
        (scanCode (scanCode region first).2 second).2) := by
  induction first generalizing region with
  | nil => rfl
  | cons c rest ih =>
    rw [List.cons_append, scanCode_cons, scanCode_cons, ih]
    split <;> rfl

/-- The script with every literal replaced by an empty one. -/
def blank (script : String) : String := String.ofList (scanCode .code script.toList).1

/-- Where the scan of a script ends. -/
def endRegion (script : String) : Region := (scanCode .code script.toList).2

/-- From the one region on, both texts keep the same code and end in the other region. -/
def SameCode (start stop : Region) (first second : String) : Prop :=
  ∃ code, scanCode start first.toList = (code, stop) ∧ scanCode start second.toList = (code, stop)

namespace SameCode

variable {start middle stop : Region} {first second after behind : String}

theorem append (fronts : SameCode start middle first second)
    (backs : SameCode middle stop after behind) :
    SameCode start stop (first ++ after) (second ++ behind) := by
  obtain ⟨front, inFirst, inSecond⟩ := fronts
  obtain ⟨back, inAfter, inBehind⟩ := backs
  refine ⟨front ++ back, ?_, ?_⟩
  · rw [String.toList_append, scanCode_append, inFirst, inAfter]
  · rw [String.toList_append, scanCode_append, inSecond, inBehind]

theorem symm (same : SameCode start stop first second) : SameCode start stop second first := by
  obtain ⟨code, inFirst, inSecond⟩ := same
  exact ⟨code, inSecond, inFirst⟩

theorem trans {third : String} (left : SameCode start stop first second)
    (right : SameCode start stop second third) : SameCode start stop first third := by
  obtain ⟨code, inFirst, inSecond⟩ := left
  obtain ⟨other, again, inThird⟩ := right
  rw [inSecond] at again
  exact ⟨other, inFirst.trans again, inThird⟩

theorem blank_eq (same : SameCode .code stop first second) : blank first = blank second := by
  obtain ⟨code, inFirst, inSecond⟩ := same
  rw [blank, blank, inFirst, inSecond]

theorem endRegion_eq (same : SameCode .code stop first second) : endRegion first = stop := by
  obtain ⟨code, inFirst, -⟩ := same
  rw [endRegion, inFirst]

/-- For fixed texts, which reduce to their characters. -/
theorem fixed {text : List Char} (ends : (scanCode start text).2 = stop) :
    SameCode start stop (String.ofList text) (String.ofList text) := by
  rw [← ends]
  refine ⟨(scanCode start text).1, ?_, ?_⟩ <;> rw [String.toList_ofList]

end SameCode

theorem scanCode_of_not_mem {text : List Char} (absent : '"' ∉ text) :
    scanCode .code text = (text, .code) := by
  induction text with
  | nil => rfl
  | cons c rest ih =>
    rw [List.mem_cons, not_or] at absent
    have stays : Region.code.next c = .code := if_neg (Ne.symm absent.1)
    rw [scanCode_cons, stays, ih absent.2]
    rfl

/-- A text without quotes is code as it stands. -/
theorem sameCode_of_not_mem {text : String} (absent : '"' ∉ text.toList) :
    SameCode .code .code text text :=
  ⟨text.toList, scanCode_of_not_mem absent, scanCode_of_not_mem absent⟩

theorem scanCode_literal_of_plain {text : List Char} (plain : ∀ c ∈ text, c ≠ '"' ∧ c ≠ '\\') :
    scanCode .literal text = ([], .literal) := by
  induction text with
  | nil => rfl
  | cons c rest ih =>
    obtain ⟨⟨noQuote, noBackslash⟩, others⟩ := List.forall_mem_cons.mp plain
    have stays : Region.literal.next c = .literal := by
      rw [Region.next, if_neg noQuote, if_neg noBackslash]
    have dropped : Region.literal.keeps c = false := beq_eq_false_iff_ne.mpr noQuote
    rw [scanCode_cons, stays, dropped, ih others]
    rfl

/-- A backslash hides the character behind it. -/
theorem scanCode_literal_escape (c : Char) (rest : List Char) :
    scanCode .literal ('\\' :: c :: rest) = scanCode .literal rest := rfl

theorem scanCode_digits {digits : List Char} {unit : Nat} (isUnit : Literal.Digits digits unit) :
    scanCode .literal ('\\' :: 'u' :: digits) = ([], .literal) := by
  rw [scanCode_literal_escape]
  apply scanCode_literal_of_plain
  intro d member
  constructor
  · rintro rfl
    exact isUnit.not_mem (by decide) member
  · rintro rfl
    exact isUnit.not_mem (by decide) member

/-- Nothing is kept of a piece of a literal, and the literal goes on behind it. -/
theorem scanCode_of_denotes {piece : List Char} {c : Char} (denotes : Literal.Denotes piece c) :
    scanCode .literal piece = ([], .literal) := by
  cases denotes with
  | plain visible notQuote notBackslash =>
    exact scanCode_literal_of_plain (List.forall_mem_singleton.mpr ⟨notQuote, notBackslash⟩)
  | @mark mark _ listed =>
    rw [scanCode_literal_escape]
    rfl
  | unit isUnit => exact scanCode_digits isUnit
  | @pair first second _ _ _ isUpper isLower =>
    change scanCode .literal ('\\' :: 'u' :: first ++ '\\' :: 'u' :: second) = _
    rw [scanCode_append, scanCode_digits isUpper, scanCode_digits isLower]
    rfl

theorem scanCode_flatMap_spelling (text : List Char) :
    scanCode .literal (text.flatMap Literal.spelling) = ([], .literal) := by
  induction text with
  | nil => rfl
  | cons c rest ih =>
    rw [List.flatMap_cons, scanCode_append, scanCode_of_denotes (Literal.denotes_spelling c), ih]
    rfl

/-- A literal is emptied, whatever text it stands for. -/
theorem scanCode_script (text : String) :
    scanCode .code (Literal.script text).toList = (['"', '"'], .code) := by
  have inside : scanCode .literal (text.toList.flatMap Literal.spelling ++ ['"']) =
      (['"'], .code) := by
    rw [scanCode_append, scanCode_flatMap_spelling]
    rfl
  rw [Literal.toList_script_eq, scanCode_cons]
  change ('"' :: (scanCode .literal _).1, (scanCode .literal _).2) = _
  rw [inside]

theorem sameCode_script (first second : String) :
    SameCode .code .code (Literal.script first) (Literal.script second) :=
  ⟨['"', '"'], scanCode_script first, scanCode_script second⟩

theorem Identifier.sameCode {name : String} (identifier : Identifier name) :
    SameCode .code .code name name :=
  sameCode_of_not_mem (identifier.not_mem (by decide))

theorem sameCode_toString (number : Nat) :
    SameCode .code .code (toString number) (toString number) := by
  apply sameCode_of_not_mem
  intro member
  cases isDigit_of_mem_toString member

end Pagewright
