import Pagewright.Proofs.Faults

set_option autoImplicit false

namespace Pagewright

/-- A text at which every word before it ends. -/
structure EndsWords (text : List Char) : Prop where
  ends : endsWord text = true
  noSlash : text.head? ≠ some '/'

theorem endsWords_nil : EndsWords [] := ⟨rfl, nofun⟩

theorem endsWords_cons_of_blank {c : Char} (blank : Text.isBlank c = true) (text : List Char) :
    EndsWords (c :: text) := by
  refine ⟨by simp [endsWord, blank], ?_⟩
  rintro isSlash
  cases isSlash
  cases blank

theorem endsWords_openBrace (text : List Char) : EndsWords ('{' :: text) := ⟨rfl, by simp⟩

theorem endsWords_closeBrace (text : List Char) : EndsWords ('}' :: text) := ⟨rfl, by simp⟩

theorem endsWords_quote (text : List Char) : EndsWords ('"' :: text) := ⟨rfl, by simp⟩

/-- A word ends where it ended, whatever follows from the next such text on. -/
theorem EndsBefore.replace {word front back other : List Char}
    (ends : EndsBefore word (front ++ back)) (first : EndsWords back) (second : EndsWords other) :
    EndsBefore word (front ++ other) := by
  cases front with
  | nil => exact ⟨second.ends, fun _ => second.noSlash⟩
  | cons c front =>
    refine ⟨?_, ends.slash⟩
    by_contra goesOn
    rw [Bool.not_eq_true, List.cons_append, endsWord_cons] at goesOn
    obtain ⟨plain, noComment⟩ := goesOn
    have alone : startsComment (c :: (front ++ back)) = false := by
      rw [Bool.eq_false_iff, ne_eq, startsComment_eq_true_iff] at noComment ⊢
      rintro ⟨body, whole⟩
      cases front with
      | nil =>
        obtain ⟨-, slash⟩ := List.cons.inj whole
        exact first.noSlash (congrArg List.head? slash)
      | cons d front =>
        obtain ⟨rfl, tail⟩ := List.cons.inj whole
        obtain ⟨rfl, -⟩ := List.cons.inj tail
        exact noComment ⟨_, rfl⟩
    have stops := ends.ends
    rw [List.cons_append, (endsWord_cons c _).mpr ⟨plain, alone⟩] at stops
    cases stops

/-- Behind a gap that is not the last, a text goes on with its own gap. -/
theorem Gap.splitGap_append {gap : List Char} (isGap : Gap false gap) (text : List Char) :
    splitGap false (gap ++ text) = (gap ++ (splitGap false text).1, (splitGap false text).2) := by
  induction isGap with
  | nil => rfl
  | blank blank _ ih => rw [List.cons_append, splitGap_blank blank, ih, List.cons_append]
  | @comment body inner oneLine _ ih =>
    have whole : '/' :: '/' :: body ++ '\n' :: inner ++ text =
        '/' :: '/' :: (body ++ '\n' :: (inner ++ text)) := by simp
    rw [List.cons_append] at ih
    rw [whole, splitGap_comment, splitGap_inComment oneLine, ih]
    simp
  | lastComment isLast _ => cases isLast

theorem Gap.last {gap : List Char} (isGap : Gap false gap) : Gap true gap := by
  induction isGap with
  | nil => exact .nil
  | blank blank _ ih => exact .blank blank ih
  | comment oneLine _ ih => exact .comment oneLine ih
  | lastComment isLast _ => cases isLast

theorem opens_append (first second : List Token) :
    opens (first ++ second) = opens first + opens second :=
  List.countP_append

theorem closes_append (first second : List Token) :
    closes (first ++ second) = closes first + closes second :=
  List.countP_append

/-- A token opens or closes as many braces as the depth changes. -/
theorem Nests.count {depth inner : Nat} {token : Token} (nests : Nests depth token.lexeme inner) :
    closes [token] + inner = opens [token] + depth := by
  obtain ⟨lexeme, pos⟩ := token
  cases nests with
  | openBrace =>
    change 0 + (depth + 1) = 1 + depth
    omega
  | @closeBrace inner =>
    change 1 + inner = 0 + (inner + 1)
    omega
  | other notOpen notClose =>
    rw [opens_cons_of_ne _ _ notOpen, closes_cons_of_ne _ _ notClose]
    rfl

namespace Scanner

/-- The tokens are passed. The text spells them, with the gap before each. -/
inductive Passes : Scanner → List Char → List Token → Scanner → Prop
  | nil {scanner : Scanner} : Passes scanner [] [] scanner
  | cons {scanner middle after : Scanner} {gap spelling text : List Char} {token : Token}
      {tokens : List Token} (takes : scanner.Takes gap spelling token middle)
      (more : Passes middle text tokens after) :
      Passes scanner (gap ++ (spelling ++ text)) (token :: tokens) after

section

variable {scanner after : Scanner} {text : List Char} {tokens : List Token}

theorem Passes.rest (passes : scanner.Passes text tokens after) :
    scanner.rest = text ++ after.rest := by
  induction passes with
  | nil => rfl
  | cons takes _ ih => rw [takes.rest, ih, List.append_assoc, List.append_assoc]

theorem Passes.pos (passes : scanner.Passes text tokens after) :
    after.pos = scanner.pos.after text := by
  induction passes with
  | nil => rfl
  | cons takes _ ih =>
    rw [ih, takes.afterPos, takes.pos, Position.after_append, Position.after_append]

theorem Passes.count (passes : scanner.Passes text tokens after) :
    closes tokens + after.depth = opens tokens + scanner.depth := by
  induction passes with
  | nil => rfl
  | @cons scanner middle after _ _ _ token tokens takes _ ih =>
    have first := takes.nests.count
    have whole : token :: tokens = [token] ++ tokens := rfl
    rw [whole, closes_append, opens_append]
    omega

theorem Passes.endless (passes : scanner.Passes text tokens after) :
    ∀ token ∈ tokens, token.lexeme ≠ .endOfInput := by
  induction passes with
  | nil => exact List.forall_mem_nil _
  | cons takes _ ih => exact List.forall_mem_cons.mpr ⟨takes.not_end, ih⟩

/-- What a scanner of a whole text has passed, is the front of the text. -/
theorem Passes.toList_eq {source : String} {gap back : List Char}
    (passes : (ofText source).Passes text tokens after) (rest : after.rest = gap ++ back) :
    source.toList = text ++ gap ++ back := by
  rw [List.append_assoc, ← rest]
  exact passes.rest

theorem Passes.place_eq {source : String} (passes : (ofText source).Passes text tokens after)
    (gap : List Char) : after.pos.after gap = place (text ++ gap) := by
  rw [passes.pos, ← Position.after_append]
  exact start_after _

/-- What is passed comes before what the scanner behind it yields. -/
theorem Passes.tokens_eq (passes : scanner.Passes text tokens after) :
    scanner.tokens = (after.tokens.1.map (tokens ++ ·), after.tokens.2) := by
  induction passes with
  | @nil scanner =>
    cases result : scanner.tokens with
    | mk outcome left => cases outcome <;> rfl
  | @cons _ _ after _ _ _ _ _ takes _ ih =>
    rw [tokens_of_token takes.next_eq takes.not_end, ih]
    cases after.tokens.1 <;> rfl

/-- A scanner goes on until only a gap is left or no token follows. -/
theorem exists_passes (scanner : Scanner) :
    ∃ text tokens after, scanner.Passes text tokens after ∧
      (Gap true after.rest ∨ ∃ diagnostic, after.Stuck diagnostic) := by
  induction size : scanner.rest.length using Nat.strongRecOn generalizing scanner with
  | ind size ih =>
    subst size
    rcases read : scanner.next with ⟨diagnostic | token, middle⟩
    · have stuck := (next_eq_error_iff scanner diagnostic).mp (congrArg Prod.fst read)
      exact ⟨[], [], scanner, .nil, .inr ⟨diagnostic, stuck⟩⟩
    · rcases next_cases read with ⟨isGap, -⟩ | ⟨gap, spelling, takes⟩
      · exact ⟨[], [], scanner, .nil, .inl isGap⟩
      · obtain ⟨text, tokens, after, passes, stops⟩ := ih _ takes.length_lt middle rfl
        exact ⟨_, _, after, .cons takes passes, stops⟩

theorem tokens_of_gap (isGap : Gap true scanner.rest) :
    scanner.tokens = (.ok [⟨.endOfInput, scanner.pos.after scanner.rest⟩],
      ⟨[], scanner.pos.after scanner.rest, scanner.depth⟩) :=
  tokens_of_end (next_of_gap isGap) rfl

theorem Stuck.tokens_eq_error {diagnostic : Diagnostic} (stuck : scanner.Stuck diagnostic) :
    scanner.tokens.1 = .error diagnostic :=
  (tokens_eq_error_iff _ _).mpr (.inl stuck)

/-- The tokens of a text are those that are passed, and the end behind the last gap. -/
theorem exists_passes_of_ok {tokens : List Token} (success : scanner.tokens.1 = .ok tokens) :
    ∃ text passed after, scanner.Passes text passed after ∧ Gap true after.rest ∧
      tokens = passed ++ [⟨.endOfInput, scanner.pos.after scanner.rest⟩] := by
  obtain ⟨text, passed, after, passes, isGap | ⟨diagnostic, stuck⟩⟩ := exists_passes scanner
  · rw [passes.tokens_eq, tokens_of_gap isGap, passes.pos, ← Position.after_append,
      ← passes.rest] at success
    cases success
    exact ⟨text, passed, after, passes, isGap, rfl⟩
  · rw [passes.tokens_eq, stuck.tokens_eq_error] at success
    cases success

/-- Scanning fails where a scanner is stuck behind the tokens that it passes. -/
theorem exists_passes_of_error {diagnostic : Diagnostic}
    (failed : scanner.tokens.1 = .error diagnostic) :
    ∃ text passed after, scanner.Passes text passed after ∧ after.Stuck diagnostic := by
  obtain ⟨text, passed, after, passes, isGap | ⟨other, stuck⟩⟩ := exists_passes scanner
  · rw [passes.tokens_eq, tokens_of_gap isGap] at failed
    cases failed
  · have reported := failed
    rw [passes.tokens_eq, stuck.tokens_eq_error] at reported
    cases reported
    exact ⟨text, passed, after, passes, stuck⟩

end

section

variable {scanner after : Scanner} {front back other : List Char}

theorem Takes.replace {gap spelling : List Char} {token : Token}
    (takes : scanner.Takes gap spelling token after) (rest : after.rest = front ++ back)
    (first : EndsWords back) (second : EndsWords other) :
    Takes { scanner with rest := gap ++ (spelling ++ (front ++ other)) } gap spelling token
      { after with rest := front ++ other } where
  rest := rfl
  isGap := takes.isGap
  spells := takes.spells
  ends := fun isWord => by
    have ends := takes.ends isWord
    rw [rest] at ends
    exact ends.replace first second
  pos := takes.pos
  afterPos := takes.afterPos
  nests := takes.nests

/-- The same tokens are passed whatever follows, from the next such text on. -/
theorem Passes.replace {text : List Char} {tokens : List Token}
    (passes : scanner.Passes text tokens after) (rest : after.rest = front ++ back)
    (first : EndsWords back) (second : EndsWords other) :
    Passes { scanner with rest := text ++ (front ++ other) } text tokens
      { after with rest := front ++ other } := by
  induction passes with
  | nil => exact .nil
  | @cons _ middle _ gap spelling text _ _ takes more ih =>
    have behind : middle.rest = text ++ front ++ back := by
      rw [more.rest, rest, List.append_assoc]
    have taken := takes.replace behind first second
    rw [List.append_assoc] at taken
    have passed := Passes.cons taken (ih rest)
    rw [List.append_assoc, List.append_assoc]
    exact passed

end

end Scanner

end Pagewright
