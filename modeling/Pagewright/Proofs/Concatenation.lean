import Pagewright.Proofs.Pages
import Pagewright.Proofs.Passage
import Pagewright.Proofs.Relocation

set_option autoImplicit false

namespace Pagewright

open Text (isBlank)

section Boundaries

/-- What ends a word ends it also when a line follows. -/
theorem EndsBefore.above {word rest : List Char} (ends : EndsBefore word rest)
    (more : List Char) : EndsBefore word (rest ++ '\n' :: more) := by
  rw [← List.append_nil rest] at ends
  exact ends.replace endsWords_nil (endsWords_cons_of_blank Text.isBlank_newline more)

theorem Quoted.oneLine {spelling text : List Char} (quoted : Quoted spelling text) :
    '\n' ∉ spelling := by
  induction quoted with
  | close => decide
  | quote _ ih | backslash _ ih => simpa using ih
  | plain _ oneLine _ _ ih =>
    rw [List.mem_cons, not_or]
    exact ⟨oneLine.symm, ih⟩

/-- The next line does not close a literal. -/
theorem splitLiteral_above {text : List Char} (unclosed : (splitLiteral text).closed = false)
    (more : List Char) : (splitLiteral (text ++ '\n' :: more)).closed = false := by
  rw [Bool.eq_false_iff]
  intro closed
  have quoted := splitLiteral_quoted closed
  rcases List.append_eq_append_iff.mp (splitLiteral_append (text ++ '\n' :: more)) with
    ⟨back, whole, -⟩ | ⟨back, whole, rest⟩
  · rw [whole, (quoted.splitLiteral_eq back)] at unclosed
    cases unclosed
  · cases back with
    | nil =>
      rw [List.append_nil] at whole
      have alone := quoted.splitLiteral_eq []
      rw [List.append_nil, whole] at alone
      rw [alone] at unclosed
      cases unclosed
    | cons c back =>
      refine quoted.oneLine ?_
      rw [whole, (List.cons.inj rest).1]
      simp

/-- The line feed belongs to the gap, also behind a last comment. -/
theorem Gap.splitGap_above {gap : List Char} (isGap : Gap true gap) (more : List Char) :
    splitGap false (gap ++ '\n' :: more) =
      (gap ++ '\n' :: (splitGap false more).1, (splitGap false more).2) := by
  induction isGap with
  | nil => exact splitGap_blank Text.isBlank_newline more
  | blank blank _ ih => rw [List.cons_append, splitGap_blank blank, ih, List.cons_append]
  | @comment body text oneLine _ ih =>
    have whole : '/' :: '/' :: body ++ '\n' :: text ++ '\n' :: more =
        '/' :: '/' :: (body ++ '\n' :: (text ++ '\n' :: more)) := by simp
    rw [List.cons_append] at ih
    rw [whole, splitGap_comment, splitGap_inComment oneLine, ih]
    simp
  | lastComment _ oneLine =>
    rw [List.cons_append, List.cons_append, splitGap_comment, splitGap_inComment oneLine,
      splitGap_blank Text.isBlank_newline]
    simp

end Boundaries

theorem Nests.deeper {depth inner : Nat} {lexeme : Lexeme} (nests : Nests depth lexeme inner)
    (braces : Nat) : Nests (depth + braces) lexeme (inner + braces) := by
  cases nests with
  | openBrace =>
    rw [Nat.add_right_comm]
    exact .openBrace
  | closeBrace =>
    rw [Nat.add_right_comm]
    exact .closeBrace
  | other notOpen notClose => exact .other notOpen notClose

namespace Scanner

/-- The scanner of a text that has more below it. -/
def above (scanner : Scanner) (more : List Char) : Scanner :=
  { scanner with rest := scanner.rest ++ '\n' :: more }

/-- The scanner at the line below its text, inside `depth` braces. -/
def below (scanner : Scanner) (more : List Char) (depth : Nat) : Scanner :=
  ⟨more, (scanner.pos.after scanner.rest).advance '\n', depth⟩

/-- The scanner of the same text further down and inside more braces. -/
def shifted (scanner : Scanner) (lines braces : Nat) : Scanner :=
  ⟨scanner.rest, scanner.pos.down lines, scanner.depth + braces⟩

section

variable {scanner after : Scanner} {gap spelling : List Char} {token : Token}

theorem Takes.above (takes : scanner.Takes gap spelling token after) (more : List Char) :
    (scanner.above more).Takes gap spelling token (after.above more) where
  rest := by simp only [Scanner.above, takes.rest, List.append_assoc]
  isGap := takes.isGap
  spells := takes.spells
  ends := fun isWord => (takes.ends isWord).above more
  pos := takes.pos
  afterPos := takes.afterPos
  nests := takes.nests

theorem Takes.shifted (takes : scanner.Takes gap spelling token after) (lines braces : Nat) :
    (scanner.shifted lines braces).Takes gap spelling (token.relocate (Position.down lines))
      (after.shifted lines braces) where
  rest := takes.rest
  isGap := takes.isGap
  spells := takes.spells
  ends := takes.ends
  pos := by
    rw [Token.relocate, takes.pos]
    exact (Position.after_down ..).symm
  afterPos := by
    rw [Token.relocate, Scanner.shifted, takes.afterPos]
    exact (Position.after_down ..).symm
  nests := takes.nests.deeper braces

end

theorem Stuck.above {scanner : Scanner} {diagnostic : Diagnostic}
    (stuck : scanner.Stuck diagnostic) (more : List Char) :
    (scanner.above more).Stuck diagnostic := by
  cases stuck with
  | @brace gap text rest isGap outside =>
    have whole : (scanner.above more).rest = gap ++ '}' :: (text ++ '\n' :: more) := by
      rw [Scanner.above, rest, List.append_assoc, List.cons_append]
    exact .brace whole isGap outside
  | @literal gap text rest isGap unclosed =>
    have whole : (scanner.above more).rest = gap ++ '"' :: (text ++ '\n' :: more) := by
      rw [Scanner.above, rest, List.append_assoc, List.cons_append]
    exact .literal whole isGap (splitLiteral_above unclosed more)

section

variable {scanner after : Scanner} {text : List Char} {passed : List Token}

theorem Passes.above (passes : scanner.Passes text passed after) (more : List Char) :
    (scanner.above more).Passes text passed (after.above more) := by
  induction passes with
  | nil => exact .nil
  | cons takes _ ih => exact .cons (takes.above more) ih

/-- Behind what is passed, the text ends where it ended. -/
theorem Passes.below_eq (passes : scanner.Passes text passed after) (more : List Char)
    (depth : Nat) : after.below more depth = scanner.below more depth := by
  rw [Scanner.below, Scanner.below, passes.rest, Position.after_append, passes.pos]

end

/-- A failure does not depend on what stands below the text. -/
theorem tokens_above_eq_error {scanner : Scanner} {diagnostic : Diagnostic}
    (failed : scanner.tokens.1 = .error diagnostic) (more : List Char) :
    (scanner.above more).tokens.1 = .error diagnostic := by
  obtain ⟨_, _, _, passes, stuck⟩ := exists_passes_of_error failed
  rw [(passes.above more).tokens_eq, (stuck.above more).tokens_eq_error]
  rfl

theorem next_above_of_gap {scanner : Scanner} (isGap : Gap true scanner.rest) (more : List Char) :
    (scanner.above more).next = (scanner.below more scanner.depth).next := by
  rw [next_of_splitGap (isGap.splitGap_above more), next, skipGap]
  simp only [move, below, above, Position.after_append, Position.after_cons]

theorem tokens_eq_of_next_eq {first second : Scanner} (same : first.next = second.next) :
    first.tokens = second.tokens := by
  rcases read : second.next with ⟨diagnostic | token, after⟩
  · rw [tokens_of_error read, tokens_of_error (same.trans read)]
  · by_cases last : token.lexeme = .endOfInput
    · rw [tokens_of_end read last, tokens_of_end (same.trans read) last]
    · rw [tokens_of_token read last, tokens_of_token (same.trans read) last]

/-- Behind the tokens of a text, the text below it is scanned. -/
theorem tokens_above_eq {scanner : Scanner} {tokens : List Token}
    (success : scanner.tokens.1 = .ok tokens) :
    ∃ front stop depth, tokens = front ++ [⟨.endOfInput, stop⟩] ∧
      (∀ token ∈ front, token.lexeme ≠ .endOfInput) ∧
      ∀ more, (scanner.above more).tokens.1 =
        (scanner.below more depth).tokens.1.map (front ++ ·) := by
  obtain ⟨text, front, after, passes, isGap, rfl⟩ := exists_passes_of_ok success
  refine ⟨front, _, after.depth, rfl, passes.endless, fun more => ?_⟩
  rw [(passes.above more).tokens_eq, tokens_eq_of_next_eq (next_above_of_gap isGap more),
    passes.below_eq]

theorem tokens_shifted {scanner : Scanner} {tokens : List Token} (lines braces : Nat)
    (success : scanner.tokens.1 = .ok tokens) :
    (scanner.shifted lines braces).tokens.1 =
      .ok (tokens.map (Token.relocate (Position.down lines))) := by
  induction size : scanner.rest.length using Nat.strongRecOn generalizing scanner tokens with
  | ind size ih =>
    subst size
    apply tokens_eq_ok_iff.mpr
    rcases tokens_eq_ok_iff.mp success with
      ⟨isGap, rfl⟩ | ⟨_, _, token, after, _, takes, later, rfl⟩
    · refine .inl ⟨isGap, ?_⟩
      rw [shifted, Position.after_down]
      rfl
    · exact .inr ⟨_, _, _, _, _, takes.shifted lines braces, ih _ takes.length_lt later rfl, rfl⟩

end Scanner

/-- Where a line below a text begins. -/
theorem place_advance (before : List Char) :
    (place before).advance '\n' = Position.start.down (1 + before.count '\n') := by
  rw [place, Position.advance, if_pos rfl, Position.down, Position.start, Nat.add_comm (1 + _)]

/-- The scanner below a text is the one that the text below has alone, further down. -/
theorem Scanner.below_ofText (first second : String) (depth : Nat) :
    (ofText first).below second.toList depth =
      (ofText second).shifted (1 + first.toList.count '\n') depth := by
  rw [below, ofText, start_after, place_advance, shifted, ofText, Nat.zero_add]

theorem Scanner.above_ofText (first second : String) :
    (ofText first).above second.toList = ofText (first ++ "\n" ++ second) := by
  rw [above, ofText, ofText, String.toList_append, String.toList_append, List.append_assoc]
  rfl

/-- The tokens of two texts below one another: those of the first without its end, and those of the
second, further down. -/
theorem tokenize_append {first second : String} {tokens others : List Token}
    (above : tokenize first = .ok tokens) (below : tokenize second = .ok others) :
    ∃ front stop, tokens = front ++ [⟨.endOfInput, stop⟩] ∧
      (∀ token ∈ front, token.lexeme ≠ .endOfInput) ∧
      tokenize (first ++ "\n" ++ second) =
        .ok (front ++ others.map
          (Token.relocate (Position.down (1 + first.toList.count '\n')))) := by
  obtain ⟨front, stop, depth, whole, endless, goesOn⟩ := Scanner.tokens_above_eq above
  refine ⟨front, stop, whole, endless, ?_⟩
  rw [tokenize, ← Scanner.above_ofText, goesOn, Scanner.below_ofText,
    Scanner.tokens_shifted _ _ below]
  rfl

theorem tokenize_append_eq_error {first : String} {diagnostic : Diagnostic}
    (failed : tokenize first = .error diagnostic) (second : String) :
    tokenize (first ++ "\n" ++ second) = .error diagnostic := by
  rw [tokenize, ← Scanner.above_ofText]
  exact Scanner.tokens_above_eq_error failed _

theorem parseTokens_append {mode : Mode} {front others : List Token} {stop : Position}
    {nodes more : List Node} {move : Position → Position}
    (endless : ∀ token ∈ front, token.lexeme ≠ .endOfInput)
    (above : parseTokens mode (front ++ [⟨.endOfInput, stop⟩]) = .ok nodes)
    (below : parseTokens mode others = .ok more) :
    parseTokens mode (front ++ others.map (Token.relocate move)) =
      .ok (nodes ++ Node.relocateAll move more) := by
  have passed : ∀ token ∈ front, (token.lexeme != .endOfInput) = true := by
    intro token member
    exact bne_iff_ne.mpr (endless token member)
  rw [parseTokens_eq_ok_iff, List.takeWhile_append_of_pos passed] at above
  rw [parseTokens_eq_ok_iff] at below
  rw [parseTokens_eq_ok_iff, List.takeWhile_append_of_pos passed, List.takeWhile_map]
  refine Derives.append ?_ (below.relocate move)
  simpa using above

/-- Parsing goes text by text: two programs below one another parse to the nodes of the first and
those of the second, which stand further down by the lines of the first; and what cannot be scanned
is reported as it is, whatever stands below it. -/
theorem parse_append (mode : Mode) (first second : String) :
    (∀ nodes others, parse mode first = .ok nodes → parse mode second = .ok others →
      parse mode (first ++ "\n" ++ second) =
        .ok (nodes ++
          Node.relocateAll (Position.down (1 + first.toList.count '\n')) others)) ∧
    ∀ diagnostic, tokenize first = .error diagnostic →
      tokenize (first ++ "\n" ++ second) = .error diagnostic := by
  refine ⟨fun nodes others above below => ?_, fun _ failed => tokenize_append_eq_error failed _⟩
  obtain ⟨tokens, scanned, read⟩ := (parse_eq_ok_iff ..).mp above
  obtain ⟨lower, scannedBelow, readBelow⟩ := (parse_eq_ok_iff ..).mp below
  obtain ⟨front, stop, rfl, endless, whole⟩ := tokenize_append scanned scannedBelow
  exact (parse_eq_ok_iff ..).mpr ⟨_, whole, parseTokens_append endless read readBelow⟩

/-- A sentence that a brace would go on with, and a comment that a line feed ends. -/
def listingText : String := "ui \x7b \x7d\nlist notes // all"

def listingTokens : List Token :=
  [⟨.word "ui", ⟨1, 1⟩⟩, ⟨.openBrace, ⟨1, 4⟩⟩, ⟨.closeBrace, ⟨1, 6⟩⟩, ⟨.word "list", ⟨2, 1⟩⟩,
    ⟨.word "notes", ⟨2, 6⟩⟩, ⟨.endOfInput, ⟨2, 18⟩⟩]

def declarationText : String := "table notes \x7b\n  body \x7d"

def declarationTokens : List Token :=
  [⟨.word "table", ⟨1, 1⟩⟩, ⟨.word "notes", ⟨1, 7⟩⟩, ⟨.openBrace, ⟨1, 13⟩⟩, ⟨.word "body", ⟨2, 3⟩⟩,
    ⟨.closeBrace, ⟨2, 8⟩⟩, ⟨.endOfInput, ⟨2, 9⟩⟩]

theorem parse_append_listing :
    parse .strict listingText = .ok [.block ⟨1, 1⟩ .ui [], .list ⟨2, 1⟩ "notes" []] ∧
    parse .strict declarationText = .ok [.table ⟨1, 1⟩ "notes" [⟨"body", ⟨2, 3⟩⟩]] ∧
    parse .strict (listingText ++ "\n" ++ declarationText) =
      .ok [.block ⟨1, 1⟩ .ui [], .list ⟨2, 1⟩ "notes" [],
        .table ⟨3, 1⟩ "notes" [⟨"body", ⟨4, 3⟩⟩]] ∧
    tokenize "list \"notes" = .error (.scan ⟨1, 6⟩ .unclosedLiteral) ∧
    tokenize ("list \"notes" ++ "\n" ++ declarationText) =
      .error (.scan ⟨1, 6⟩ .unclosedLiteral) := by
  have above : parse .strict listingText =
      .ok [.block ⟨1, 1⟩ .ui [], .list ⟨2, 1⟩ "notes" []] := by
    have scanned : tokenize listingText = .ok listingTokens := by decide +kernel
    have read : parseTokens .strict listingTokens =
        .ok [.block ⟨1, 1⟩ .ui [], .list ⟨2, 1⟩ "notes" []] := by
      rw [parseTokens_eq_program]
      cbv
    exact (parse_eq_ok_iff ..).mpr ⟨_, scanned, read⟩
  have below : parse .strict declarationText =
      .ok [.table ⟨1, 1⟩ "notes" [⟨"body", ⟨2, 3⟩⟩]] := by
    have scanned : tokenize declarationText = .ok declarationTokens := by decide +kernel
    have read : parseTokens .strict declarationTokens =
        .ok [.table ⟨1, 1⟩ "notes" [⟨"body", ⟨2, 3⟩⟩]] := by
      rw [parseTokens_eq_program]
      cbv
    exact (parse_eq_ok_iff ..).mpr ⟨_, scanned, read⟩
  have failed : tokenize "list \"notes" = .error (.scan ⟨1, 6⟩ .unclosedLiteral) := by
    decide +kernel
  refine ⟨above, below, ?_, failed, ?_⟩
  · exact (parse_append .strict listingText declarationText).1 _ _ above below
  · exact (parse_append .strict "list \"notes" declarationText).2 _ failed

end Pagewright
