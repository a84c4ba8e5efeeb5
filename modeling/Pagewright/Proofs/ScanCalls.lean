import Mathlib.Data.List.Perm.Subperm
import Pagewright.Proofs.Cuts
import Pagewright.Proofs.Passage

set_option autoImplicit false

namespace Pagewright

namespace Scanner

/-- The scanner as so many calls leave it. -/
def asked (scanner : Scanner) : Nat → Scanner
  | 0 => scanner
  | calls + 1 => asked scanner.tokens.2 calls

/-- The scanner has passed the text and stands at the place behind it. -/
structure Advances (scanner : Scanner) (text : List Char) (after : Scanner) : Prop where
  rest : scanner.rest = text ++ after.rest
  pos : after.pos = scanner.pos.after text

/-- Nothing is left of a line. -/
def AtLineEnd (text : List Char) : Prop :=
  ∀ c, text.head? = some c → c = '\n'

/-- The place of a quote that the scanner has not passed. -/
def QuoteAt (scanner : Scanner) (pos : Position) : Prop :=
  ∃ front back, scanner.rest = front ++ '"' :: back ∧ pos = scanner.pos.after front

/-- How one call ends: nothing is left, or a brace stays where it is, or a literal takes the rest
of its line. -/
inductive Ends (scanner : Scanner) : Except Diagnostic (List Token) × Scanner → Prop
  | found {tokens : List Token} {depth : Nat}
      (endless : ∀ token ∈ tokens, token.lexeme ≠ .endOfInput) :
      Ends scanner (.ok (tokens ++ [⟨.endOfInput, scanner.pos.after scanner.rest⟩]),
        ⟨[], scanner.pos.after scanner.rest, depth⟩)
  | brace {text back : List Char} {pos : Position}
      (advances : scanner.Advances text ⟨'}' :: back, pos, 0⟩) :
      Ends scanner (.error (.scan pos .unmatchedBrace), ⟨'}' :: back, pos, 0⟩)
  | literal {front line : List Char} {after : Scanner}
      (advances : scanner.Advances (front ++ '"' :: line) after) (lineEnd : AtLineEnd after.rest) :
      Ends scanner (.error (.scan (scanner.pos.after front) .unclosedLiteral), after)

section

variable {scanner middle after : Scanner} {text more : List Char}

theorem Advances.trans (first : scanner.Advances text middle)
    (second : middle.Advances more after) : scanner.Advances (text ++ more) after where
  rest := by rw [first.rest, second.rest, List.append_assoc]
  pos := by rw [second.pos, first.pos, Position.after_append]

/-- The text ends where it ended. -/
theorem Advances.stop (advances : scanner.Advances text after) :
    after.pos.after after.rest = scanner.pos.after scanner.rest := by
  rw [advances.rest, Position.after_append, advances.pos]

theorem Advances.quoteAt (advances : scanner.Advances text after) {pos : Position}
    (quote : after.QuoteAt pos) : scanner.QuoteAt pos := by
  obtain ⟨front, back, rest, rfl⟩ := quote
  refine ⟨text ++ front, back, ?_, ?_⟩
  · rw [advances.rest, rest, List.append_assoc]
  · rw [advances.pos, Position.after_append]

theorem Passes.advances {tokens : List Token} (passes : scanner.Passes text tokens after) :
    scanner.Advances text after :=
  ⟨passes.rest, passes.pos⟩

theorem QuoteAt.line_le {pos : Position} (quote : scanner.QuoteAt pos) :
    scanner.pos.line ≤ pos.line ∧ pos.line ≤ (scanner.pos.after scanner.rest).line := by
  obtain ⟨front, back, rest, rfl⟩ := quote
  rw [rest, Position.after_append, Position.line_after _ ('"' :: back), Position.line_after]
  omega

/-- From the end of a line, the next quote is on a later line. -/
theorem QuoteAt.line_lt {pos : Position} (quote : scanner.QuoteAt pos)
    (lineEnd : AtLineEnd scanner.rest) : scanner.pos.line < pos.line := by
  obtain ⟨front, back, rest, rfl⟩ := quote
  rw [Position.line_after]
  cases front with
  | nil =>
    rw [rest] at lineEnd
    exact absurd (lineEnd '"' rfl) (by decide)
  | cons c front =>
    rw [rest] at lineEnd
    rw [lineEnd c rfl, List.count_cons_self]
    omega

end

theorem atLineEnd_of_unclosed {text : List Char} (unclosed : (splitLiteral text).closed = false) :
    AtLineEnd (splitLiteral text).rest := by
  fun_induction splitLiteral text with
  | case1 =>
    intro c first
    cases first
  | case2 cs =>
    intro c first
    exact (Option.some.inj first).symm
  | case3 => cases unclosed
  | case4 cs ih | case5 cs ih | case6 c cs _ _ _ _ ih => exact ih unclosed

/-- Every call ends in one of the three ways. -/
theorem ends_tokens (scanner : Scanner) : scanner.Ends scanner.tokens := by
  obtain ⟨text, tokens, after, passes, isGap | ⟨_, stuck⟩⟩ := exists_passes scanner
  · rw [passes.tokens_eq, tokens_of_gap isGap, passes.advances.stop]
    exact .found passes.endless
  · rw [passes.tokens_eq]
    cases stuck with
    | @brace gap back rest isGap outside =>
      rw [tokens_of_error (next_of_brace rest isGap outside)]
      exact .brace (passes.advances.trans ⟨rest, rfl⟩)
    | @literal gap back rest isGap unclosed =>
      have here : after.pos.after gap = scanner.pos.after (text ++ gap) := by
        rw [passes.pos, Position.after_append]
      have whole : scanner.rest =
          text ++ gap ++ '"' :: (splitLiteral back).spelling ++ (splitLiteral back).rest := by
        rw [passes.rest, rest, List.append_assoc, List.append_assoc, List.cons_append,
          splitLiteral_append]
      rw [tokens_of_error (next_of_unclosed rest isGap unclosed), here]
      exact .literal ⟨whole, (Position.after_append ..).symm⟩ (atLineEnd_of_unclosed unclosed)

/-- A call, failed or not, leaves the scanner at the place behind what it has passed. -/
theorem Ends.exists_advances {scanner : Scanner} {call : Except Diagnostic (List Token) × Scanner}
    (ends : scanner.Ends call) : ∃ text, scanner.Advances text call.2 := by
  cases ends with
  | found _ => exact ⟨scanner.rest, (List.append_nil _).symm, rfl⟩
  | brace advances => exact ⟨_, advances⟩
  | literal advances _ => exact ⟨_, advances⟩

theorem exists_advances_asked (scanner : Scanner) (calls : Nat) :
    ∃ text, scanner.Advances text (scanner.asked calls) := by
  induction calls generalizing scanner with
  | zero => exact ⟨[], rfl, rfl⟩
  | succ calls ih =>
    obtain ⟨text, first⟩ := scanner.ends_tokens.exists_advances
    obtain ⟨more, later⟩ := ih scanner.tokens.2
    exact ⟨_, first.trans later⟩

theorem repeated_succ (scanner : Scanner) (calls : Nat) :
    scanner.repeated (calls + 1) = scanner.repeated calls ++ [(scanner.asked calls).tokens.1] := by
  induction calls generalizing scanner with
  | zero => rfl
  | succ calls ih =>
    rw [repeated, ih, repeated, asked]
    rfl

theorem tokens_at_brace (back : List Char) (pos : Position) :
    tokens ⟨'}' :: back, pos, 0⟩ =
      (.error (.scan pos .unmatchedBrace), ⟨'}' :: back, pos, 0⟩) := by
  have here : Scanner.rest ⟨'}' :: back, pos, 0⟩ = [] ++ '}' :: back := rfl
  exact tokens_of_error (next_of_brace here .nil rfl)

theorem tokens_at_end (pos : Position) (depth : Nat) :
    tokens ⟨[], pos, depth⟩ = (.ok [⟨.endOfInput, pos⟩], ⟨[], pos, depth⟩) :=
  tokens_of_gap .nil

/-- A scanner that a call leaves as it is gives the same answer to every call. -/
theorem repeated_of_fixed {scanner : Scanner} {answer : Except Diagnostic (List Token)}
    (fixed : scanner.tokens = (answer, scanner)) (calls : Nat) :
    scanner.repeated calls = List.replicate calls answer := by
  induction calls with
  | zero => rfl
  | succ calls ih => rw [repeated, fixed, ih, List.replicate_succ]

/-- The answer to a call that stops at an unclosed literal. -/
def unclosedAt (pos : Position) : Except Diagnostic (List Token) :=
  .error (.scan pos .unclosedLiteral)

/-- The first answer behind those at the literals, and every answer behind it: all tokens, and from
then on only the end, at the given place; or the same brace for ever. -/
inductive Settles (stop : Position) :
    Except Diagnostic (List Token) → Except Diagnostic (List Token) → Prop
  | found {tokens : List Token} (endless : ∀ token ∈ tokens, token.lexeme ≠ .endOfInput) :
      Settles stop (.ok (tokens ++ [⟨.endOfInput, stop⟩])) (.ok [⟨.endOfInput, stop⟩])
  | brace {pos : Position} :
      Settles stop (.error (.scan pos .unmatchedBrace)) (.error (.scan pos .unmatchedBrace))

/-- The answers to so many calls, if the first ones stop at literals. -/
def answers (faults : List Position) (last rest : Except Diagnostic (List Token)) (calls : Nat) :
    List (Except Diagnostic (List Token)) :=
  (faults.map unclosedAt ++ last :: List.replicate calls rest).take calls

theorem answers_cons (pos : Position) (faults : List Position)
    (last rest : Except Diagnostic (List Token)) (calls : Nat) :
    answers (pos :: faults) last rest (calls + 1) =
      unclosedAt pos :: answers faults last rest calls := by
  have enough : calls ≤ (faults.map unclosedAt ++ last :: List.replicate calls rest).length := by
    rw [List.length_append, List.length_cons, List.length_replicate]
    omega
  rw [answers, List.map_cons, List.cons_append, List.take_succ_cons, List.replicate_succ',
    ← List.cons_append, ← List.append_assoc, List.take_append_of_le_length enough]
  rfl

theorem repeated_eq_answers_nil {scanner after : Scanner}
    {last rest : Except Diagnostic (List Token)} (first : scanner.tokens = (last, after))
    (fixed : after.tokens = (rest, after)) (calls : Nat) :
    scanner.repeated calls = answers [] last rest calls := by
  cases calls with
  | zero => rfl
  | succ calls =>
    rw [repeated, first, repeated_of_fixed fixed, answers, List.map_nil, List.nil_append,
      List.take_succ_cons, List.take_replicate, Nat.min_eq_left (Nat.le_succ _)]

/-- The answers of a scanner: the unclosed literals it meets, line after line, and what it settles
on. -/
theorem exists_answers (scanner : Scanner) :
    ∃ faults last rest, Settles (scanner.pos.after scanner.rest) last rest ∧
      faults.Pairwise (fun pos later => pos.line < later.line) ∧
      (∀ pos ∈ faults, scanner.QuoteAt pos) ∧
      ∀ calls, scanner.repeated calls = answers faults last rest calls := by
  induction size : scanner.rest.length using Nat.strongRecOn generalizing scanner with
  | ind size ih =>
    subst size
    rcases call : scanner.tokens with ⟨answer, after⟩
    have ends := scanner.ends_tokens
    rw [call] at ends
    cases ends with
    | found endless =>
      exact ⟨[], _, _, .found endless, .nil, List.forall_mem_nil _,
        repeated_eq_answers_nil call (tokens_at_end _ _)⟩
    | brace _ =>
      exact ⟨[], _, _, .brace, .nil, List.forall_mem_nil _,
        repeated_eq_answers_nil call (tokens_at_brace _ _)⟩
    | @literal front line _ advances lineEnd =>
      -- The quote is passed, so less is left for the calls behind this one.
      have shorter : after.rest.length < scanner.rest.length := by
        rw [advances.rest, List.length_append, List.length_append, List.length_cons]
        omega
      obtain ⟨faults, last, rest, settles, increasing, quotes, same⟩ := ih _ shorter after rfl
      have here : scanner.QuoteAt (scanner.pos.after front) :=
        ⟨front, line ++ after.rest, by rw [advances.rest, List.append_assoc]; rfl, rfl⟩
      have above : (scanner.pos.after front).line ≤ after.pos.line := by
        rw [advances.pos, Position.after_append, Position.line_after _ ('"' :: line)]
        omega
      rw [advances.stop] at settles
      refine ⟨scanner.pos.after front :: faults, last, rest, settles, ?_, ?_, ?_⟩
      · refine List.pairwise_cons.mpr ⟨fun pos member => ?_, increasing⟩
        exact Nat.lt_of_le_of_lt above ((quotes pos member).line_lt lineEnd)
      · exact List.forall_mem_cons.mpr
          ⟨here, fun pos member => advances.quoteAt (quotes pos member)⟩
      · intro calls
        cases calls with
        | zero => rfl
        | succ calls =>
          rw [repeated, call, answers_cons, same]
          rfl

end Scanner

/-- Places on different lines between two lines are not more than the lines. -/
theorem length_le_of_lines {places : List Position} {first last : Nat}
    (increasing : places.Pairwise fun pos later => pos.line < later.line)
    (between : ∀ pos ∈ places, first ≤ pos.line ∧ pos.line ≤ last) :
    places.length ≤ last + 1 - first := by
  have distinct : (places.map Position.line).Nodup :=
    List.pairwise_map.mpr (increasing.imp Nat.ne_of_lt)
  have among : places.map Position.line ⊆ List.range' first (last + 1 - first) := by
    intro line member
    obtain ⟨pos, here, rfl⟩ := List.mem_map.mp member
    have := between pos here
    rw [List.mem_range'_1]
    omega
  have bounded := (List.subperm_of_subset distinct among).length_le
  rwa [List.length_map, List.length_range'] at bounded

/-- A scanner that is asked again and again reports unclosed literals on line after line, not more
than there are lines, and then either finds the end, where it stays, or a brace that closes
nothing, which it reports from then on. After every call it stands at the place behind the text
that it has passed. -/
theorem repeated_scans_settle (source : String) :
    (∃ faults last rest,
      (∀ calls, (Scanner.ofText source).repeated calls =
        Scanner.answers faults last rest calls) ∧
      faults.Pairwise (fun pos later => pos.line < later.line) ∧
      faults.length ≤ 1 + source.toList.count '\n' ∧
      Scanner.Settles (place source.toList) last rest) ∧
    ∀ calls,
      (Scanner.ofText source).repeated (calls + 1) = (Scanner.ofText source).repeated calls ++
        [((Scanner.ofText source).asked calls).tokens.1] ∧
      ∃ passed, source.toList = passed ++ ((Scanner.ofText source).asked calls).rest ∧
        ((Scanner.ofText source).asked calls).pos = place passed := by
  refine ⟨?_, fun calls => ?_⟩
  · obtain ⟨faults, last, rest, settles, increasing, quotes, same⟩ :=
      (Scanner.ofText source).exists_answers
    have stop : (Scanner.ofText source).pos.after (Scanner.ofText source).rest =
        place source.toList := start_after _
    rw [stop] at settles
    refine ⟨faults, last, rest, same, increasing, ?_, settles⟩
    have bounded := length_le_of_lines increasing fun pos member => (quotes pos member).line_le
    rw [stop] at bounded
    exact bounded
  · obtain ⟨passed, advances⟩ := (Scanner.ofText source).exists_advances_asked calls
    exact ⟨Scanner.repeated_succ _ _, passed, advances.rest,
      advances.pos.trans (start_after passed)⟩

/-- A literal that its line does not close, and a brace that closes nothing below it. -/
example : (Scanner.ofText "text \"a\n \x7d").repeated 3 =
    [.error (.scan ⟨1, 6⟩ .unclosedLiteral), .error (.scan ⟨2, 2⟩ .unmatchedBrace),
      .error (.scan ⟨2, 2⟩ .unmatchedBrace)] := by decide +kernel

end Pagewright
