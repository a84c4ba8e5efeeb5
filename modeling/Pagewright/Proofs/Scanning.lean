import Pagewright.Proofs.Braces
import Pagewright.Proofs.Layout

set_option autoImplicit false

namespace Pagewright

namespace Scanner

/-- One token is passed: the gap before it, its spelling, and the scanner behind it. -/
structure Takes (scanner : Scanner) (gap spelling : List Char) (token : Token) (after : Scanner) :
    Prop where
  rest : scanner.rest = gap ++ (spelling ++ after.rest)
  isGap : Gap false gap
  spells : Spells spelling token.lexeme
  ends : token.lexeme.isWord = true → EndsBefore spelling after.rest
  pos : token.pos = scanner.pos.after gap
  afterPos : after.pos = token.pos.after spelling
  nests : Nests scanner.depth token.lexeme after.depth

theorem next_of_splitGap {scanner : Scanner} {gap rest : List Char}
    (split : splitGap false scanner.rest = (gap, rest)) :
    scanner.next = tokenHere ⟨rest, scanner.pos.after gap, scanner.depth⟩ := by
  rw [next, skipGap, split]
  rfl

theorem tokenHere_of_not_endsWord {text : List Char} (goesOn : endsWord text = false)
    (pos : Position) (depth : Nat) :
    tokenHere ⟨text, pos, depth⟩ =
      (.ok ⟨.word (String.ofList (splitWord text).1), pos⟩,
        ⟨(splitWord text).2, pos.after (splitWord text).1, depth⟩) := by
  cases text with
  | nil => cases goesOn
  | cons c cs =>
    have split : splitWord (c :: cs) = (c :: (splitWord cs).1, (splitWord cs).2) := by
      rw [splitWord, goesOn]
      rfl
    obtain ⟨⟨-, notOpen, notClose, notQuote⟩, -⟩ := (endsWord_cons c cs).mp goesOn
    rw [split, tokenHere]
    split
    · rename_i whole
      cases whole
    · rename_i whole
      exact absurd (List.cons.inj whole).1 notOpen
    · rename_i whole
      exact absurd (List.cons.inj whole).1 notClose
    · rename_i whole
      exact absurd (List.cons.inj whole).1 notQuote
    · rename_i whole
      cases whole
      rfl

theorem tokenHere_of_spells {spelling rest : List Char} {lexeme : Lexeme} {depth inner : Nat}
    (pos : Position) (spells : Spells spelling lexeme)
    (ends : lexeme.isWord = true → EndsBefore spelling rest) (nests : Nests depth lexeme inner) :
    tokenHere ⟨spelling ++ rest, pos, depth⟩ =
      (.ok ⟨lexeme, pos⟩, ⟨rest, pos.after spelling, inner⟩) := by
  cases spells with
  | openBrace =>
    cases nests with
    | openBrace => rfl
    | other notOpen _ => exact absurd rfl notOpen
  | closeBrace =>
    cases nests with
    | closeBrace => rfl
    | other _ notClose => exact absurd rfl notClose
  | literal quoted =>
    cases nests
    have split := quoted.splitLiteral_eq rest
    simp only [tokenHere, List.cons_append, split]
    rfl
  | word nonempty unbroken =>
    cases nests
    have split := unbroken.splitWord_eq (ends rfl)
    have goesOn := unbroken.not_endsWord nonempty (ends rfl)
    rw [tokenHere_of_not_endsWord goesOn, split]

theorem takes_of_not_endsWord {text : List Char} (goesOn : endsWord text = false) (pos : Position)
    (depth : Nat) :
    Takes ⟨text, pos, depth⟩ [] (splitWord text).1
      ⟨.word (String.ofList (splitWord text).1), pos⟩
      ⟨(splitWord text).2, pos.after (splitWord text).1, depth⟩ := by
  obtain ⟨whole, unbroken, ends⟩ := (splitWord_eq_iff text _ _).mp rfl
  have nonempty : (splitWord text).1 ≠ [] := by
    intro noWord
    have stops := ends.ends
    rw [noWord, List.nil_append] at whole
    rw [← whole, goesOn] at stops
    cases stops
  have nests : Nests depth (.word (String.ofList (splitWord text).1)) depth :=
    .other (by simp) (by simp)
  exact ⟨whole, .nil, .word nonempty unbroken, fun _ => ends, rfl, rfl, nests⟩

theorem takes_of_closed {cs : List Char} (closed : (splitLiteral cs).closed = true)
    (pos : Position) (depth : Nat) :
    Takes ⟨'"' :: cs, pos, depth⟩ [] ('"' :: (splitLiteral cs).spelling)
      ⟨.literal (String.ofList (splitLiteral cs).text), pos⟩
      ⟨(splitLiteral cs).rest, pos.after ('"' :: (splitLiteral cs).spelling), depth⟩ := by
  have whole : '"' :: cs = '"' :: (splitLiteral cs).spelling ++ (splitLiteral cs).rest := by
    rw [List.cons_append, splitLiteral_append]
  have nests : Nests depth (.literal (String.ofList (splitLiteral cs).text)) depth :=
    .other (by simp) (by simp)
  exact ⟨whole, .nil, .literal (splitLiteral_quoted closed), nofun, rfl, rfl, nests⟩

/-- Where no gap begins, the text ends or a token is passed as it is spelled. -/
theorem tokenHere_cases {scanner after : Scanner} {token : Token}
    (solid : startsGap scanner.rest = false) (read : scanner.tokenHere = (.ok token, after)) :
    scanner.rest = [] ∧ token = ⟨.endOfInput, scanner.pos⟩ ∨
      ∃ spelling, scanner.Takes [] spelling token after := by
  obtain ⟨text, pos, depth⟩ := scanner
  cases stops : endsWord text with
  | false =>
    rw [tokenHere_of_not_endsWord stops] at read
    cases read
    exact .inr ⟨_, takes_of_not_endsWord stops pos depth⟩
  | true =>
    -- A text that begins with no gap and with no word begins with a brace or a quote.
    unfold tokenHere at read
    dsimp only at read
    split at read
    · cases read
      exact .inl ⟨rfl, rfl⟩
    · cases read
      exact .inr ⟨['{'], rfl, .nil, .openBrace, nofun, rfl, rfl, .openBrace⟩
    · split at read
      · cases read
      · cases read
        refine .inr ⟨['}'], rfl, .nil, .closeBrace, nofun, rfl, rfl, ?_⟩
        cases depth with
        | zero => contradiction
        | succ inner => exact .closeBrace
    · split at read
      · rename_i closed
        cases read
        exact .inr ⟨_, takes_of_closed closed pos depth⟩
      · cases read
    · rename_i c cs notOpen notClose notQuote
      have goesOn : endsWord (c :: cs) = false := by
        rw [startsGap, Bool.or_eq_false_iff] at solid
        exact (endsWord_cons c cs).mpr ⟨⟨solid.1, notOpen, notClose, notQuote⟩, solid.2⟩
      rw [goesOn] at stops
      cases stops

theorem Takes.next_eq {scanner after : Scanner} {gap spelling : List Char} {token : Token}
    (takes : scanner.Takes gap spelling token after) : scanner.next = (.ok token, after) := by
  obtain ⟨text, pos, depth⟩ := scanner
  obtain ⟨rest, afterPos, inner⟩ := after
  obtain ⟨lexeme, tokenPos⟩ := token
  obtain ⟨whole, isGap, spells, ends, rfl, rfl, nests⟩ := takes
  have solid := spells.not_startsGap ends
  have split := isGap.splitGap_eq (by simp) solid
  rw [← whole] at split
  rw [next_of_splitGap split]
  exact tokenHere_of_spells _ spells ends nests

theorem next_of_gap {scanner : Scanner} (isGap : Gap true scanner.rest) :
    scanner.next = (.ok ⟨.endOfInput, scanner.pos.after scanner.rest⟩,
      ⟨[], scanner.pos.after scanner.rest, scanner.depth⟩) := by
  have split : splitGap false (scanner.rest ++ []) = (scanner.rest, []) :=
    isGap.splitGap_eq (fun _ => rfl) rfl
  rw [List.append_nil] at split
  exact next_of_splitGap split

/-- What a scanner passes: the last gap, or one token and the gap before it. -/
theorem next_cases {scanner after : Scanner} {token : Token}
    (read : scanner.next = (.ok token, after)) :
    Gap true scanner.rest ∧ token = ⟨.endOfInput, scanner.pos.after scanner.rest⟩ ∨
      ∃ gap spelling, scanner.Takes gap spelling token after := by
  obtain ⟨gap, rest, whole, isGap, solid⟩ := exists_gap scanner.rest
  have split : splitGap false scanner.rest = (gap, rest) :=
    (splitGap_eq_iff _ _ _).mpr ⟨whole, isGap, solid⟩
  rw [next_of_splitGap split] at read
  rcases tokenHere_cases solid read with ⟨rfl, rfl⟩ | ⟨spelling, takes⟩
  · rw [List.append_nil] at whole
    rw [whole]
    exact .inl ⟨isGap, rfl⟩
  · obtain ⟨rfl, -, spells, ends, pos, afterPos, nests⟩ := takes
    have notLast : ([] ++ (spelling ++ after.rest)).isEmpty = false := by
      simp [spells.ne_nil]
    rw [notLast] at isGap
    exact .inr ⟨gap, spelling, whole, isGap, spells, ends, pos, afterPos, nests⟩

theorem Takes.length_lt {scanner after : Scanner} {gap spelling : List Char} {token : Token}
    (takes : scanner.Takes gap spelling token after) : after.rest.length < scanner.rest.length := by
  have nonempty := List.length_pos_iff.mpr takes.spells.ne_nil
  rw [takes.rest, List.length_append, List.length_append]
  omega

theorem Takes.not_end {scanner after : Scanner} {gap spelling : List Char} {token : Token}
    (takes : scanner.Takes gap spelling token after) : token.lexeme ≠ .endOfInput := by
  intro isEnd
  have spells := takes.spells
  rw [isEnd] at spells
  cases spells

theorem tokens_eq_ok_iff {scanner : Scanner} {tokens : List Token} :
    scanner.tokens.1 = .ok tokens ↔
      Gap true scanner.rest ∧ tokens = [⟨.endOfInput, scanner.pos.after scanner.rest⟩] ∨
      ∃ gap spelling token after more, scanner.Takes gap spelling token after ∧
        after.tokens.1 = .ok more ∧ tokens = token :: more := by
  constructor
  · intro result
    rcases read : scanner.next with ⟨diagnostic | token, after⟩
    · rw [tokens_of_error read] at result
      cases result
    rcases next_cases read with ⟨isGap, rfl⟩ | ⟨gap, spelling, takes⟩
    · rw [tokens_of_end read rfl] at result
      cases result
      exact .inl ⟨isGap, rfl⟩
    · rw [tokens_of_token read takes.not_end] at result
      rcases behind : after.tokens.1 with diagnostic | more <;> rw [behind] at result <;>
        cases result
      exact .inr ⟨gap, spelling, token, after, more, takes, behind, rfl⟩
  · rintro (⟨isGap, rfl⟩ | ⟨gap, spelling, token, after, more, takes, result, rfl⟩)
    · rw [tokens_of_end (next_of_gap isGap) rfl]
    · rw [tokens_of_token takes.next_eq takes.not_end, result]
      rfl

/-- A token that is passed becomes the first piece of a layout. -/
theorem Takes.layout {scanner after : Scanner} {gap spelling nextGap : List Char} {token : Token}
    {pieces : List Piece} (takes : scanner.Takes gap spelling token after)
    (layout : Layout nextGap pieces) (rest : after.rest = nextGap ++ spelled pieces) :
    Layout gap (⟨token.lexeme, spelling, nextGap⟩ :: pieces) ∧
      scanner.rest = gap ++ spelled (⟨token.lexeme, spelling, nextGap⟩ :: pieces) := by
  have ends := takes.ends
  rw [rest] at ends
  constructor
  · refine .cons takes.isGap takes.spells (fun isWord => ?_) layout
    exact layout.apart_iff.mpr (ends isWord)
  · rw [takes.rest, rest, spelled_cons]

/-- The first piece of a layout is passed, if its brace closes something. -/
theorem takes_of_layout {scanner : Scanner} {gap : List Char} {piece : Piece} {pieces : List Piece}
    {inner : Nat} (layout : Layout gap (piece :: pieces))
    (rest : scanner.rest = gap ++ spelled (piece :: pieces))
    (nests : Nests scanner.depth piece.lexeme inner) :
    scanner.Takes gap piece.spelling ⟨piece.lexeme, scanner.pos.after gap⟩
      ⟨piece.gap ++ spelled pieces, (scanner.pos.after gap).after piece.spelling, inner⟩ := by
  cases layout with
  | cons isGap spells apart more =>
    rw [spelled_cons] at rest
    have ends := fun isWord => (apart isWord).endsBefore more
    exact ⟨rest, isGap, spells, ends, rfl, rfl, nests⟩

theorem Takes.afterPos_eq {scanner after : Scanner} {before gap spelling : List Char}
    {token : Token} (takes : scanner.Takes gap spelling token after)
    (here : scanner.pos = place before) : after.pos = place (before ++ gap ++ spelling) := by
  rw [takes.afterPos, takes.pos, here, place_after, place_after]

/-- A scanner behind a text `before` reads the layouts that its braces allow. -/
theorem tokens_eq_ok_iff_layout {scanner : Scanner} {before : List Char} {tokens : List Token}
    (here : scanner.pos = place before) :
    scanner.tokens.1 = .ok tokens ↔
      ∃ gap pieces, Layout gap pieces ∧ scanner.rest = gap ++ spelled pieces ∧
        tokens = tokensBehind (before ++ gap) pieces ∧ Enclosed scanner.depth tokens := by
  induction size : scanner.rest.length using Nat.strongRecOn
    generalizing scanner before tokens with
  | ind size ih =>
    subst size
    rw [tokens_eq_ok_iff]
    constructor
    · rintro (⟨isGap, rfl⟩ | ⟨gap, spelling, token, after, more, takes, result, rfl⟩)
      · refine ⟨scanner.rest, [], .nil isGap, (List.append_nil _).symm, ?_, ?_⟩
        · rw [here, place_after]
          rfl
        · exact (enclosed_cons_of_ne _ _ _ (by simp) (by simp)).mpr (enclosed_nil _)
      · obtain ⟨nextGap, pieces, layout, rest, rfl, enclosed⟩ :=
          (ih _ takes.length_lt (takes.afterPos_eq here) rfl).mp result
        obtain ⟨whole, scannerRest⟩ := takes.layout layout rest
        refine ⟨gap, _, whole, scannerRest, ?_, ?_⟩
        · rw [tokensBehind, ← place_after, ← here, ← takes.pos]
        · exact (enclosed_cons_iff_nests _ _ _).mpr ⟨after.depth, takes.nests, enclosed⟩
    · rintro ⟨gap, pieces, layout, rest, rfl, enclosed⟩
      cases pieces with
      | nil =>
        obtain rfl : scanner.rest = gap := rest.trans (List.append_nil gap)
        cases layout with
        | nil isGap =>
          refine .inl ⟨isGap, ?_⟩
          rw [here, place_after]
          rfl
      | cons piece pieces =>
        obtain ⟨inner, nests, enclosed⟩ := (enclosed_cons_iff_nests _ _ _).mp enclosed
        have takes := takes_of_layout layout rest nests
        have more : Layout piece.gap pieces := by
          cases layout
          assumption
        have result := (ih _ takes.length_lt (takes.afterPos_eq here) rfl).mpr
          ⟨piece.gap, pieces, more, rfl, rfl, enclosed⟩
        refine .inr ⟨gap, piece.spelling, _, _, _, takes, result, ?_⟩
        rw [here, place_after]
        rfl

end Scanner

/-- Scanning answers with tokens exactly for the texts that have a layout whose braces close nothing
that is not open, and the tokens are those of the layout. -/
theorem tokenize_eq_ok_iff_layout (source : String) (tokens : List Token) :
    tokenize source = .ok tokens ↔
      ∃ gap pieces, Layout gap pieces ∧ source.toList = gap ++ spelled pieces ∧
        tokens = tokensBehind gap pieces ∧
        ∀ front, front <+: tokens → closes front ≤ opens front := by
  have here : (Scanner.ofText source).pos = place [] := rfl
  exact Scanner.tokens_eq_ok_iff_layout here

end Pagewright
