import Mathlib.Data.List.Basic
import Mathlib.Data.List.Induction
import Pagewright.Proofs.Spelling

set_option autoImplicit false

namespace Pagewright

open Text (isBlank)

def Lexeme.isWord : Lexeme → Bool
  | .word _ => true
  | _ => false

/-- A lexeme as it stands in a text, and the gap behind it. -/
structure Piece where
  lexeme : Lexeme
  spelling : List Char
  gap : List Char

/-- What keeps a word from what follows it. -/
structure Piece.Apart (piece : Piece) (pieces : List Piece) : Prop where
  words : ∀ next, pieces.head? = some next → next.lexeme.isWord = true → piece.gap ≠ []
  /-- A slash at the end of the word would begin the comment earlier. -/
  slash : piece.spelling.getLast? = some '/' → ∀ c, piece.gap.head? = some c → isBlank c = true

/-- A gap and the pieces behind it make a source text. -/
inductive Layout : List Char → List Piece → Prop
  | nil {gap : List Char} (isGap : Gap true gap) : Layout gap []
  | cons {gap : List Char} {piece : Piece} {pieces : List Piece} (isGap : Gap false gap)
      (spells : Spells piece.spelling piece.lexeme)
      (apart : piece.lexeme.isWord = true → piece.Apart pieces)
      (more : Layout piece.gap pieces) : Layout gap (piece :: pieces)

def spelled (pieces : List Piece) : List Char :=
  pieces.flatMap fun piece => piece.spelling ++ piece.gap

/-- The place behind a text: its line feeds and the characters of its last line, from one. -/
def place (before : List Char) : Position where
  line := 1 + before.count '\n'
  col := 1 + (before.reverse.takeWhile (· != '\n')).length

/-- The tokens of the pieces behind a text, and the end of the input. -/
def tokensBehind (before : List Char) : List Piece → List Token
  | [] => [⟨.endOfInput, place before⟩]
  | piece :: pieces =>
    ⟨piece.lexeme, place before⟩ :: tokensBehind (before ++ piece.spelling ++ piece.gap) pieces

theorem start_after (before : List Char) : Position.start.after before = place before := by
  induction before using List.reverseRecOn with
  | nil => rfl
  | append_singleton before c ih =>
    rw [Position.after_append, ih, Position.after_cons, Position.after_nil, Position.advance, place,
      place, List.reverse_append, List.count_append]
    split
    · rename_i isFeed
      subst isFeed
      simp [Nat.add_assoc]
    · rename_i notFeed
      simp [notFeed, Nat.add_assoc]

theorem place_after (before text : List Char) :
    (place before).after text = place (before ++ text) := by
  rw [← start_after, ← start_after, Position.after_append]

section Boundaries

theorem endsWord_of_startsGap {text : List Char} (starts : startsGap text = true) :
    endsWord text = true := by
  cases text with
  | nil => rfl
  | cons c cs =>
    rw [startsGap, Bool.or_eq_true] at starts
    rcases starts with blank | comment
    · simp [endsWord, blank]
    · simp [endsWord, comment]

theorem Gap.startsGap_append {last : Bool} {gap : List Char} (isGap : Gap last gap)
    (nonempty : gap ≠ []) (rest : List Char) : startsGap (gap ++ rest) = true := by
  cases isGap with
  | nil => exact absurd rfl nonempty
  | blank blank _ => simp [startsGap, blank]
  | comment | lastComment => simp [startsGap, startsComment]

/-- A gap begins with a blank or a slash. -/
theorem Gap.head {last : Bool} {gap : List Char} {c : Char} (isGap : Gap last gap)
    (first : gap.head? = some c) : isBlank c = true ∨ c = '/' := by
  cases isGap with
  | nil => cases first
  | blank blank _ =>
    cases first
    exact .inl blank
  | comment | lastComment =>
    cases first
    exact .inr rfl

theorem Spells.ne_nil {spelling : List Char} {lexeme : Lexeme} (spells : Spells spelling lexeme) :
    spelling ≠ [] := by
  cases spells with
  | word nonempty _ => exact nonempty
  | literal | openBrace | closeBrace => exact List.cons_ne_nil _ _

/-- Whatever is no word ends a word before it. -/
theorem Spells.endsBefore {spelling : List Char} {lexeme : Lexeme} (spells : Spells spelling lexeme)
    (notWord : lexeme.isWord = false) (word rest : List Char) :
    EndsBefore word (spelling ++ rest) := by
  cases spells with
  | word => cases notWord
  | literal | openBrace | closeBrace => exact ⟨rfl, fun _ => by simp⟩

/-- Where a word stands, another would not end. -/
theorem Spells.not_endsWord {spelling rest : List Char} {lexeme : Lexeme}
    (spells : Spells spelling lexeme) (isWord : lexeme.isWord = true)
    (ends : EndsBefore spelling rest) : endsWord (spelling ++ rest) = false := by
  cases spells with
  | word nonempty unbroken => exact unbroken.not_endsWord nonempty ends
  | literal | openBrace | closeBrace => cases isWord

/-- No gap begins where a token does. -/
theorem Spells.not_startsGap {spelling rest : List Char} {lexeme : Lexeme}
    (spells : Spells spelling lexeme) (ends : lexeme.isWord = true → EndsBefore spelling rest) :
    startsGap (spelling ++ rest) = false := by
  cases isWord : lexeme.isWord with
  | true =>
    have goesOn := spells.not_endsWord isWord (ends isWord)
    rw [Bool.eq_false_iff]
    intro starts
    rw [endsWord_of_startsGap starts] at goesOn
    cases goesOn
  | false =>
    cases spells with
    | word => cases isWord
    | literal | openBrace | closeBrace => rfl

theorem Layout.exists_gap {gap : List Char} {pieces : List Piece} (layout : Layout gap pieces) :
    ∃ last, Gap last gap := by
  cases layout with
  | nil isGap => exact ⟨true, isGap⟩
  | cons isGap _ _ _ => exact ⟨false, isGap⟩

theorem spelled_cons (piece : Piece) (pieces : List Piece) :
    spelled (piece :: pieces) = piece.spelling ++ (piece.gap ++ spelled pieces) := by
  rw [spelled, List.flatMap_cons, List.append_assoc]
  rfl

theorem Piece.Apart.endsBefore {piece : Piece} {pieces : List Piece} (apart : piece.Apart pieces)
    (layout : Layout piece.gap pieces) :
    EndsBefore piece.spelling (piece.gap ++ spelled pieces) := by
  by_cases noGap : piece.gap = []
  · rw [noGap, List.nil_append]
    cases layout with
    | nil _ => exact ⟨rfl, fun _ => by simp [spelled]⟩
    | @cons _ next pieces _ spells _ _ =>
      have notWord : next.lexeme.isWord = false := by
        rw [Bool.eq_false_iff]
        intro isWord
        exact apart.words next rfl isWord noGap
      rw [spelled_cons]
      exact spells.endsBefore notWord _ _
  · obtain ⟨last, isGap⟩ := layout.exists_gap
    refine ⟨endsWord_of_startsGap (isGap.startsGap_append noGap _), ?_⟩
    intro isSlash startsSlash
    rw [List.head?_append_of_ne_nil _ noGap] at startsSlash
    exact absurd (apart.slash isSlash '/' startsSlash) (by decide)

/-- The words of a layout end where the scanner ends them. -/
theorem Layout.apart_iff {piece : Piece} {pieces : List Piece} (layout : Layout piece.gap pieces) :
    piece.Apart pieces ↔ EndsBefore piece.spelling (piece.gap ++ spelled pieces) := by
  refine ⟨fun apart => apart.endsBefore layout, fun ends => ⟨?_, ?_⟩⟩
  · intro next isNext isWord noGap
    have ends := ends.ends
    rw [noGap, List.nil_append] at ends
    cases layout with
    | nil _ => cases isNext
    | @cons _ piece pieces _ spells apart more =>
      obtain rfl : piece = next := Option.some.inj isNext
      have goesOn := spells.not_endsWord isWord ((apart isWord).endsBefore more)
      rw [spelled_cons, goesOn] at ends
      cases ends
  · intro isSlash c first
    obtain ⟨last, isGap⟩ := layout.exists_gap
    rcases isGap.head first with blank | rfl
    · exact blank
    · refine absurd ?_ (ends.slash isSlash)
      rw [List.head?_append, first]
      rfl

end Boundaries

end Pagewright
