import Pagewright.Proofs.Concatenation
import Pagewright.Proofs.Cuts
import Pagewright.Proofs.Misspelling

set_option autoImplicit false

namespace Pagewright

/-- The source with a space in place of the character at the position. -/
def blankedAt (pos : Position) (source : String) : String :=
  textBefore pos source ++ " " ++ String.ofList ((textFrom pos source).toList.drop 1)

theorem toList_blankedAt {source : String} {front back : List Char} {c : Char}
    (whole : source.toList = front ++ c :: back) :
    (blankedAt (place front) source).toList = front ++ ' ' :: back := by
  rw [blankedAt, textBefore_place whole, textFrom_place whole]
  simp

section Counts

variable {depth : Nat} {tokens : List Token}

theorem Enclosed.mono {inner : Nat} (enclosed : Enclosed depth tokens) (le : depth ≤ inner) :
    Enclosed inner tokens := by
  intro front isPrefix
  have within := enclosed front isPrefix
  omega

/-- More closing braces than are open cannot all close something. -/
theorem not_enclosed_of_lt (more : opens tokens + depth < closes tokens) :
    ¬ Enclosed depth tokens := by
  intro enclosed
  have within := enclosed tokens List.prefix_rfl
  omega

/-- Only a closing brace can fail to nest, where nothing is open. -/
theorem eq_closeBrace_of_not_nests {lexeme : Lexeme}
    (none : ¬ ∃ inner, Nests depth lexeme inner) : depth = 0 ∧ lexeme = .closeBrace := by
  by_cases isOpen : lexeme = .openBrace
  · subst isOpen
    exact absurd ⟨_, .openBrace⟩ none
  by_cases isClose : lexeme = .closeBrace
  · subst isClose
    cases depth with
    | zero => exact ⟨rfl, rfl⟩
    | succ inner => exact absurd ⟨inner, .closeBrace⟩ none
  exact absurd ⟨depth, .other isOpen isClose⟩ none

theorem Nests.unique {lexeme : Lexeme} {inner other : Nat} (nests : Nests depth lexeme inner)
    (others : Nests depth lexeme other) : inner = other := by
  cases nests <;> cases others <;> simp_all

end Counts

namespace Scanner

/-- The scanner at the same place inside as many braces. -/
def inside (scanner : Scanner) (depth : Nat) : Scanner :=
  { scanner with depth := depth }

section

variable {scanner middle after : Scanner} {text gap : List Char} {tokens first : List Token}

/-- A token is passed behind the tokens before it, and those behind it are found from there. -/
theorem exists_takes_of_mem (success : scanner.tokens.1 = .ok tokens) {token : Token}
    (member : token ∈ tokens) (notEnd : token.lexeme ≠ .endOfInput) :
    ∃ text first middle gap spelling after second, scanner.Passes text first middle ∧
      middle.Takes gap spelling token after ∧ after.tokens.1 = .ok second ∧
      tokens = first ++ token :: second := by
  induction size : scanner.rest.length using Nat.strongRecOn generalizing scanner tokens with
  | ind size ih =>
    subst size
    rcases tokens_eq_ok_iff.mp success with ⟨-, rfl⟩ | ⟨_, _, head, inner, more, takes, later, rfl⟩
    · rw [List.mem_singleton] at member
      rw [member] at notEnd
      exact absurd rfl notEnd
    · rcases List.mem_cons.mp member with rfl | behind
      · exact ⟨[], [], scanner, _, _, inner, more, .nil, takes, later, rfl⟩
      · obtain ⟨text, first, middle, gap, spelling, after, second, passes, taken, last, rfl⟩ :=
          ih _ takes.length_lt later behind rfl
        exact ⟨_, head :: first, middle, gap, spelling, after, second, .cons takes passes, taken,
          last, rfl⟩

/-- Inside other braces the same tokens are found, unless one of them closes nothing there. -/
theorem tokens_inside (success : scanner.tokens.1 = .ok tokens) (depth : Nat) :
    Enclosed depth tokens ∧ (scanner.inside depth).tokens.1 = .ok tokens ∨
      ¬ Enclosed depth tokens ∧
        ∃ pos, (scanner.inside depth).tokens.1 = .error (.scan pos .unmatchedBrace) := by
  induction size : scanner.rest.length using Nat.strongRecOn generalizing scanner tokens depth with
  | ind size ih =>
    subst size
    rcases tokens_eq_ok_iff.mp success with
      ⟨isGap, rfl⟩ | ⟨gap, spelling, token, after, more, takes, later, rfl⟩
    · refine .inl ⟨(enclosed_cons_of_ne _ _ _ (by simp) (by simp)).mpr (enclosed_nil _), ?_⟩
      exact tokens_eq_ok_iff.mpr (.inl ⟨isGap, rfl⟩)
    · rw [enclosed_cons_iff_nests]
      by_cases fits : ∃ inner, Nests depth token.lexeme inner
      · obtain ⟨inner, nests⟩ := fits
        have taken : (scanner.inside depth).Takes gap spelling token (after.inside inner) :=
          ⟨takes.rest, takes.isGap, takes.spells, takes.ends, takes.pos, takes.afterPos, nests⟩
        rcases ih _ takes.length_lt later inner rfl with ⟨enclosed, same⟩ | ⟨not, pos, failed⟩
        · exact .inl ⟨⟨inner, nests, enclosed⟩,
            tokens_eq_ok_iff.mpr (.inr ⟨_, _, _, _, _, taken, same, rfl⟩)⟩
        · refine .inr ⟨?_, pos, (tokens_eq_error_iff _ _).mpr (.inr ⟨_, _, _, _, taken, failed⟩)⟩
          rintro ⟨other, others, enclosed⟩
          rw [nests.unique others] at not
          exact not enclosed
      · obtain ⟨outside, isClose⟩ := eq_closeBrace_of_not_nests fits
        have spells := takes.spells
        rw [isClose] at spells
        cases spells
        have stuck : (scanner.inside depth).Stuck (.scan (scanner.pos.after gap) .unmatchedBrace) :=
          .brace takes.rest takes.isGap outside
        exact .inr ⟨fun ⟨inner, nests, _⟩ => fits ⟨inner, nests⟩, _, stuck.tokens_eq_error⟩

/-- A character that no token before it needs can become a blank: behind it, scanning goes on as
before, only inside other braces. -/
theorem next_blanked {c : Char} (isGap : Gap false gap) (notFeed : c ≠ '\n') (pos : Position)
    (back : List Char) (depth : Nat) :
    next ⟨gap ++ ' ' :: back, pos, depth⟩ = next ⟨back, (pos.after gap).advance c, depth⟩ := by
  have split : splitGap false (gap ++ ' ' :: back) =
      (gap ++ ' ' :: (splitGap false back).1, (splitGap false back).2) := by
    rw [isGap.splitGap_append, splitGap_blank (by decide)]
  have sameColumn : (pos.after gap).advance ' ' = (pos.after gap).advance c := by
    rw [Position.advance, Position.advance, if_neg (by decide), if_neg notFeed]
  rw [next_of_splitGap split, next_of_splitGap rfl, Position.after_append, Position.after_cons,
    sameColumn]

theorem tokens_blanked {c : Char} {token : Token} (passes : scanner.Passes text first middle)
    (takes : middle.Takes gap [c] token after) (ends : EndsWords (c :: after.rest))
    (notFeed : c ≠ '\n') :
    (Scanner.tokens ⟨text ++ (gap ++ ' ' :: after.rest), scanner.pos, scanner.depth⟩).1 =
      (after.inside middle.depth).tokens.1.map (first ++ ·) := by
  have blank := endsWords_cons_of_blank (c := ' ') (by decide) after.rest
  have passed := passes.replace takes.rest ends blank
  have here : (middle.pos.after gap).advance c = after.pos := by
    rw [takes.afterPos, takes.pos]
    rfl
  have goesOn := next_blanked takes.isGap notFeed middle.pos after.rest middle.depth
  rw [here] at goesOn
  rw [passed.tokens_eq, tokens_eq_of_next_eq goesOn]
  rfl

theorem enclosed_of_ok (success : scanner.tokens.1 = .ok tokens) :
    Enclosed scanner.depth tokens := by
  rcases tokens_inside success scanner.depth with ⟨enclosed, -⟩ | ⟨-, _, failed⟩
  · exact enclosed
  · cases success.symm.trans failed

end

end Scanner

/-- A token of one character that ends the words before it. -/
structure StandsAlone (lexeme : Lexeme) (c : Char) : Prop where
  spells : Spells [c] lexeme
  spelling : ∀ spelling, Spells spelling lexeme → spelling = [c]
  ends : ∀ back, EndsWords (c :: back)
  notFeed : c ≠ '\n'

theorem standsAlone_openBrace : StandsAlone .openBrace '{' where
  spells := .openBrace
  spelling := by
    rintro _ ⟨⟩
    rfl
  ends := endsWords_openBrace
  notFeed := by decide

theorem standsAlone_closeBrace : StandsAlone .closeBrace '}' where
  spells := .closeBrace
  spelling := by
    rintro _ ⟨⟩
    rfl
  ends := endsWords_closeBrace
  notFeed := by decide

/-- With a blank in place of such a token, the other tokens are scanned, unless a brace behind it
now closes nothing. -/
theorem tokenize_blankedAt {source : String} {tokens : List Token} {token : Token} {c : Char}
    (scanned : tokenize source = .ok tokens) (member : token ∈ tokens)
    (alone : StandsAlone token.lexeme c) :
    ∃ first second depth inner, tokens = first ++ token :: second ∧
      (textFrom token.pos source).toList.head? = some c ∧
      closes first + depth = opens first ∧ Nests depth token.lexeme inner ∧
      Enclosed inner second ∧
      (Enclosed depth second ∧ tokenize (blankedAt token.pos source) = .ok (first ++ second) ∨
        ¬ Enclosed depth second ∧ ∃ pos,
          tokenize (blankedAt token.pos source) = .error (.scan pos .unmatchedBrace)) := by
  have notEnd : token.lexeme ≠ .endOfInput := by
    intro isEnd
    have spells := alone.spells
    rw [isEnd] at spells
    cases spells
  obtain ⟨text, first, middle, gap, spelling, after, second, passes, takes, later, rfl⟩ :=
    Scanner.exists_takes_of_mem scanned member notEnd
  obtain rfl := alone.spelling spelling takes.spells
  have whole : source.toList = text ++ gap ++ c :: after.rest := passes.toList_eq takes.rest
  have here : token.pos = place (text ++ gap) := takes.pos.trans (passes.place_eq gap)
  have blanked : Scanner.ofText (blankedAt token.pos source) =
      ⟨text ++ (gap ++ ' ' :: after.rest), .start, 0⟩ := by
    rw [Scanner.ofText, here, toList_blankedAt whole, List.append_assoc]
  have rescanned := Scanner.tokens_blanked passes takes (alone.ends _) alone.notFeed
  refine ⟨first, second, middle.depth, after.depth, rfl, ?_, passes.count, takes.nests,
    Scanner.enclosed_of_ok later, ?_⟩
  · rw [here, textFrom_place whole]
    simp
  · rw [tokenize, blanked]
    rcases Scanner.tokens_inside later middle.depth with ⟨enclosed, same⟩ | ⟨not, pos, failed⟩
    · refine .inl ⟨enclosed, rescanned.trans ?_⟩
      rw [same]
      rfl
    · refine .inr ⟨not, pos, rescanned.trans ?_⟩
      rw [failed]
      rfl

/-- Whatever parses has as many closing braces as opening ones. -/
theorem closes_eq_opens_of_parse {mode : Mode} {source : String} {tokens : List Token}
    {nodes : List Node} (scanned : tokenize source = .ok tokens)
    (read : parseTokens mode tokens = .ok nodes) : closes tokens = opens tokens := by
  obtain ⟨text, front, after, passes, -, rfl⟩ := Scanner.exists_passes_of_ok scanned
  have derives := (parseTokens_eq_ok_iff_derives mode front _ nodes passes.endless).mp read
  rw [closes_append, opens_append, derives.balanced.2]
  rfl

/-- Braces that are left open are the parser's to report. -/
theorem parse_eq_error_of_lt {source : String} {tokens : List Token}
    (scanned : tokenize source = .ok tokens) (more : closes tokens < opens tokens) (mode : Mode) :
    ∃ diagnostic, parse mode source = .error diagnostic ∧ diagnostic.report.stage = .parse := by
  have reading : parse mode source = parseTokens mode tokens := by
    rw [parse, scanned]
    rfl
  rw [reading]
  cases read : parseTokens mode tokens with
  | ok nodes => exact absurd (closes_eq_opens_of_parse scanned read) (Nat.ne_of_lt more)
  | error diagnostic => exact ⟨diagnostic, rfl, stage_of_parseTokens_eq_error read⟩

/-- The loss of a brace never goes unnoticed. If a program parses and one of its braces becomes a
space, it does not parse any more: if the brace was an opening one, scanning reports a brace that
closes nothing, and if it was a closing one, parsing fails. No text with more opening than closing
braces parses at all. -/
theorem parse_lost_brace (mode : Mode) :
    (∀ source nodes, parse mode source = .ok nodes →
      ∃ tokens, tokenize source = .ok tokens ∧ ∀ token ∈ tokens,
        (token.lexeme = .openBrace →
          (textFrom token.pos source).toList.head? = some '{' ∧
          ∃ diagnostic, parse mode (blankedAt token.pos source) = .error diagnostic ∧
            diagnostic.report.stage = .scan ∧ diagnostic.report.message = "unmatched '\x7d'") ∧
        (token.lexeme = .closeBrace →
          (textFrom token.pos source).toList.head? = some '}' ∧
          ∃ diagnostic, parse mode (blankedAt token.pos source) = .error diagnostic ∧
            diagnostic.report.stage = .parse)) ∧
    ∀ source tokens, tokenize source = .ok tokens → closes tokens < opens tokens →
      ∃ diagnostic, parse mode source = .error diagnostic ∧
        diagnostic.report.stage = .parse := by
  refine ⟨fun source nodes parsed => ?_, fun _ _ scanned more =>
    parse_eq_error_of_lt scanned more mode⟩
  obtain ⟨tokens, scanned, read⟩ := (parse_eq_ok_iff ..).mp parsed
  have balanced := closes_eq_opens_of_parse scanned read
  refine ⟨tokens, scanned, fun ⟨lexeme, pos⟩ member => ⟨?_, ?_⟩⟩
  · rintro rfl
    obtain ⟨first, second, depth, inner, rfl, here, open_, nests, -, outcome⟩ :=
      tokenize_blankedAt scanned member standsAlone_openBrace
    refine ⟨here, ?_⟩
    have surplus : opens second + depth < closes second := by
      rw [closes_append, opens_append, opens_cons_openBrace,
        closes_cons_of_ne _ _ (by simp)] at balanced
      omega
    rcases outcome with ⟨enclosed, -⟩ | ⟨-, fault, failed⟩
    · exact absurd enclosed (not_enclosed_of_lt surplus)
    · refine ⟨.scan fault .unmatchedBrace, ?_, rfl, rfl⟩
      rw [parse, failed]
      rfl
  · rintro rfl
    obtain ⟨first, second, depth, inner, rfl, here, open_, nests, enclosed, outcome⟩ :=
      tokenize_blankedAt scanned member standsAlone_closeBrace
    refine ⟨here, ?_⟩
    have deeper : inner ≤ depth := by
      cases nests with
      | closeBrace => exact Nat.le_succ _
      | other _ notClose => exact absurd rfl notClose
    rcases outcome with ⟨-, rescanned⟩ | ⟨not, -⟩
    · refine parse_eq_error_of_lt rescanned ?_ mode
      rw [closes_append, opens_append, closes_cons_closeBrace,
        opens_cons_of_ne _ _ (by simp)] at balanced
      rw [closes_append, opens_append]
      omega
    · exact absurd (enclosed.mono deeper) not

/-- A row inside the page. -/
def rowText : String := "ui \x7b row \x7b \x7d \x7d"

def rowTokens : List Token :=
  [⟨.word "ui", ⟨1, 1⟩⟩, ⟨.openBrace, ⟨1, 4⟩⟩, ⟨.word "row", ⟨1, 6⟩⟩, ⟨.openBrace, ⟨1, 10⟩⟩,
    ⟨.closeBrace, ⟨1, 12⟩⟩, ⟨.closeBrace, ⟨1, 14⟩⟩, ⟨.endOfInput, ⟨1, 15⟩⟩]

theorem parse_lost_brace_row :
    parse .strict rowText = .ok [.block ⟨1, 1⟩ .ui [.block ⟨1, 6⟩ .row []]] ∧
    tokenize rowText = .ok rowTokens ∧
    (∃ diagnostic, parse .strict "ui   row \x7b \x7d \x7d" = .error diagnostic ∧
      diagnostic.report.stage = .scan ∧ diagnostic.report.message = "unmatched '\x7d'") ∧
    (∃ diagnostic, parse .strict "ui \x7b row \x7b   \x7d" = .error diagnostic ∧
      diagnostic.report.stage = .parse) ∧
    ∃ diagnostic, parse .strict "ui \x7b" = .error diagnostic ∧
      diagnostic.report.stage = .parse := by
  have scanned : tokenize rowText = .ok rowTokens := by decide +kernel
  have read : parseTokens .strict rowTokens =
      .ok [.block ⟨1, 1⟩ .ui [.block ⟨1, 6⟩ .row []]] := by
    rw [parseTokens_eq_program]
    cbv
  have parsed := (parse_eq_ok_iff ..).mpr ⟨_, scanned, read⟩
  obtain ⟨whole, more⟩ := parse_lost_brace .strict
  obtain ⟨tokens, sameTokens, lost⟩ := whole rowText _ parsed
  obtain rfl : rowTokens = tokens := by
    rw [scanned] at sameTokens
    exact Except.ok.inj sameTokens
  have withoutOpen : blankedAt ⟨1, 4⟩ rowText = "ui   row \x7b \x7d \x7d" := by decide +kernel
  have withoutClose : blankedAt ⟨1, 12⟩ rowText = "ui \x7b row \x7b   \x7d" := by decide +kernel
  have opening := ((lost ⟨.openBrace, ⟨1, 4⟩⟩ (by decide)).1 rfl).2
  have closing := ((lost ⟨.closeBrace, ⟨1, 12⟩⟩ (by decide)).2 rfl).2
  rw [withoutOpen] at opening
  rw [withoutClose] at closing
  have unclosed : tokenize "ui \x7b" =
      .ok [⟨.word "ui", ⟨1, 1⟩⟩, ⟨.openBrace, ⟨1, 4⟩⟩, ⟨.endOfInput, ⟨1, 5⟩⟩] := by decide +kernel
  exact ⟨parsed, scanned, opening, closing, more _ _ unclosed (by decide)⟩

end Pagewright
