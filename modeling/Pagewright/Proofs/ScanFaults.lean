import Pagewright.Proofs.Backslashes
import Pagewright.Proofs.Concatenation
import Pagewright.Proofs.Cuts

set_option autoImplicit false

namespace Pagewright

/-- Where a literal is not closed, a backslash takes every quote on its line. -/
theorem odd_of_unclosed {text : List Char} (unclosed : (splitLiteral text).closed = false)
    {front back : List Char} (whole : text = front ++ '"' :: back) (oneLine : '\n' ∉ front) :
    trailingBackslashes front % 2 = 1 := by
  fun_induction splitLiteral text generalizing front with
  | case1 => simp at whole
  | case2 cs =>
    cases front with
    | nil => cases whole
    | cons c front =>
      cases whole
      simp at oneLine
  | case3 => cases unclosed
  | case4 cs ih =>
    rcases front with _ | ⟨c, _ | ⟨d, front⟩⟩
    · cases whole
    · cases whole
      decide
    · cases whole
      rw [trailingBackslashes_escape]
      exact ih unclosed rfl (by simp_all)
  | case5 cs ih =>
    rcases front with _ | ⟨c, _ | ⟨d, front⟩⟩
    · cases whole
    · cases whole
    · cases whole
      rw [trailingBackslashes_escape]
      exact ih unclosed rfl (by simp_all)
  | case6 c cs notFeed notQuote noQuote noBackslash ih =>
    cases front with
    | nil => exact absurd (List.cons.inj whole).1 notQuote
    | cons d front =>
      obtain ⟨rfl, rfl⟩ := List.cons.inj whole
      have rest := ih unclosed rfl (by simp_all)
      by_cases isBackslash : c = '\\'
      · subst isBackslash
        cases front with
        | nil => exact absurd rfl (noQuote back rfl)
        | cons d front =>
          have other : ∃ e ∈ d :: front, e ≠ '\\' := by
            refine ⟨d, .head _, ?_⟩
            rintro rfl
            exact noBackslash _ rfl rfl
          exact (congrArg (· % 2) (trailingBackslashes_append ['\\'] other)).trans rest
      · rw [trailingBackslashes_cons isBackslash]
        exact rest

/-- A closed literal stays closed when the text goes on. -/
theorem splitLiteral_closed_append {text : List Char} (closed : (splitLiteral text).closed = true)
    (more : List Char) : (splitLiteral (text ++ more)).closed = true := by
  have quoted := splitLiteral_quoted closed
  have whole : text ++ more =
      (splitLiteral text).spelling ++ ((splitLiteral text).rest ++ more) := by
    rw [← List.append_assoc, splitLiteral_append]
  rw [whole, quoted.splitLiteral_eq]

/-- Whether a literal is closed shows on its line. -/
theorem unclosed_of_line {line more : List Char}
    (unclosed : (splitLiteral (line ++ '\n' :: more)).closed = false) (other : List Char) :
    (splitLiteral (line ++ '\n' :: other)).closed = false := by
  refine splitLiteral_above ?_ other
  rw [Bool.eq_false_iff]
  intro closed
  rw [splitLiteral_closed_append closed] at unclosed
  cases unclosed

section

variable {source : String} {text gap back : List Char} {passed : List Token} {after : Scanner}

/-- Without what a scanner is stuck at, the text before it is scanned. -/
theorem tokenize_passed (passes : (Scanner.ofText source).Passes text passed after)
    (rest : after.rest = gap ++ back) (isGap : Gap false gap) (ends : EndsWords back) :
    ∃ stop, tokenize (String.ofList (text ++ gap)) = .ok (passed ++ [⟨.endOfInput, stop⟩]) := by
  have before := passes.replace rest ends endsWords_nil
  rw [List.append_nil] at before
  have lastGap : Gap true (Scanner.rest { after with rest := gap }) := isGap.last
  refine ⟨after.pos.after gap, ?_⟩
  rw [tokenize, Scanner.ofText, String.toList_ofList]
  change (Scanner.tokens { Scanner.ofText source with rest := text ++ gap }).1 = _
  rw [before.tokens_eq, Scanner.tokens_of_gap lastGap]
  rfl

/-- A scanner that passes the same text and is stuck behind it, fails in the same way. -/
theorem tokenize_stuck (passes : (Scanner.ofText source).Passes text passed after)
    (rest : after.rest = gap ++ back) (ends : EndsWords back) {other : List Char}
    (others : EndsWords other) {diagnostic : Diagnostic}
    (stuck : Scanner.Stuck { after with rest := gap ++ other } diagnostic) {changed : String}
    (whole : changed.toList = text ++ gap ++ other) : tokenize changed = .error diagnostic := by
  have again := passes.replace rest ends others
  rw [tokenize, Scanner.ofText, whole, List.append_assoc]
  change (Scanner.tokens { Scanner.ofText source with rest := text ++ (gap ++ other) }).1 = _
  rw [again.tokens_eq, stuck.tokens_eq_error]
  rfl

/-- What stands behind a brace that closes nothing could be anything. -/
theorem tokenize_changed_behind_brace (passes : (Scanner.ofText source).Passes text passed after)
    (rest : after.rest = gap ++ '}' :: back) (isGap : Gap false gap) (outside : after.depth = 0)
    {changed : String} {other : List Char} (whole : changed.toList = text ++ gap ++ '}' :: other) :
    tokenize changed = .error (.scan (place (text ++ gap)) .unmatchedBrace) := by
  have stuck : Scanner.Stuck { after with rest := gap ++ '}' :: other }
      (.scan (after.pos.after gap) .unmatchedBrace) := .brace rfl isGap outside
  rw [← passes.place_eq]
  exact tokenize_stuck passes rest (endsWords_closeBrace _) (endsWords_closeBrace _) stuck whole

/-- What stands below the line of an unclosed literal could be anything. -/
theorem tokenize_changed_below_line (passes : (Scanner.ofText source).Passes text passed after)
    {line : List Char} (rest : after.rest = gap ++ '"' :: (line ++ '\n' :: back))
    (isGap : Gap false gap) (unclosed : (splitLiteral (line ++ '\n' :: back)).closed = false)
    {changed : String} {other : List Char}
    (whole : changed.toList = text ++ gap ++ '"' :: (line ++ '\n' :: other)) :
    tokenize changed = .error (.scan (place (text ++ gap)) .unclosedLiteral) := by
  have stuck : Scanner.Stuck { after with rest := gap ++ '"' :: (line ++ '\n' :: other) }
      (.scan (after.pos.after gap) .unclosedLiteral) :=
    .literal rfl isGap (unclosed_of_line unclosed other)
  rw [← passes.place_eq]
  exact tokenize_stuck passes rest (endsWords_quote _) (endsWords_quote _) stuck whole

end

/-- A fault of scanning is exact. The text before it is scanned, and what it reports stands there:
either a brace, and the text before it closes all that it opens, or the quote of a literal, and a
backslash takes every other quote on its line. The same fault is found whatever stands behind the
brace, or below the line of the literal. -/
theorem tokenize_fault {source : String} {diagnostic : Diagnostic}
    (failed : tokenize source = .error diagnostic) :
    let before := textBefore diagnostic.report.pos source
    let behind := textFrom diagnostic.report.pos source
    diagnostic.report.stage = .scan ∧ source = before ++ behind ∧
    ∃ tokens, tokenize before = .ok tokens ∧
      ((diagnostic.report.message = "unmatched '\x7d'" ∧ (∃ rest, behind = "\x7d" ++ rest) ∧
          opens tokens = closes tokens ∧
          ∀ rest, tokenize (before ++ "\x7d" ++ rest) = .error diagnostic) ∨
        diagnostic.report.message = "unclosed string literal" ∧ ∃ rest, behind = "\"" ++ rest ∧
          (∀ inner more, rest = inner ++ "\"" ++ more → '\n' ∉ inner.toList →
            trailingBackslashes inner.toList % 2 = 1) ∧
          ∀ line more, rest = line ++ "\n" ++ more → '\n' ∉ line.toList → ∀ other,
            tokenize (before ++ "\"" ++ line ++ "\n" ++ other) = .error diagnostic) := by
  obtain ⟨text, passed, after, passes, stuck⟩ := Scanner.exists_passes_of_error failed
  cases stuck with
  | @brace gap back rest isGap outside =>
    have whole := passes.toList_eq rest
    obtain ⟨stop, scanned⟩ := tokenize_passed passes rest isGap (endsWords_closeBrace _)
    simp only [Diagnostic.report, passes.place_eq, textBefore_place whole, textFrom_place whole]
    refine ⟨trivial, ?_, _, scanned, .inl ⟨rfl, ⟨String.ofList back, ?_⟩, ?_, fun other => ?_⟩⟩
    · rw [← String.ofList_append, ← whole, String.ofList_toList]
    · exact String.toList_inj.mp (by simp)
    · have count := passes.count
      rw [outside] at count
      rw [opens_append, closes_append]
      exact count.symm
    · have changed : (String.ofList (text ++ gap) ++ "\x7d" ++ other).toList =
          text ++ gap ++ '}' :: other.toList := by simp
      exact tokenize_changed_behind_brace passes rest isGap outside changed
  | @literal gap back rest isGap unclosed =>
    have whole := passes.toList_eq rest
    obtain ⟨stop, scanned⟩ := tokenize_passed passes rest isGap (endsWords_quote _)
    simp only [Diagnostic.report, passes.place_eq, textBefore_place whole, textFrom_place whole]
    refine ⟨trivial, ?_, _, scanned, .inr ⟨rfl, String.ofList back, ?_, ?_, ?_⟩⟩
    · rw [← String.ofList_append, ← whole, String.ofList_toList]
    · exact String.toList_inj.mp (by simp)
    · intro inner more split oneLine
      have parts : back = inner.toList ++ '"' :: more.toList := by
        simpa using congrArg String.toList split
      exact odd_of_unclosed unclosed parts oneLine
    · intro line more split oneLine other
      obtain rfl : back = line.toList ++ '\n' :: more.toList := by
        simpa using congrArg String.toList split
      have changed : (String.ofList (text ++ gap) ++ "\"" ++ line ++ "\n" ++ other).toList =
          text ++ gap ++ '"' :: (line.toList ++ '\n' :: other.toList) := by simp
      exact tokenize_changed_below_line passes rest isGap unclosed changed

/-- A quote that a backslash takes, on a line that another line follows. -/
def openLiteralText : String := "text \"a\\\"\nb"

theorem tokenize_openLiteralText :
    tokenize openLiteralText = .error (.scan ⟨1, 6⟩ .unclosedLiteral) ∧
    (∃ tokens, tokenize "text " = .ok tokens) ∧ trailingBackslashes ['a', '\\'] % 2 = 1 ∧
    ∀ other, tokenize ("text \"a\\\"\n" ++ other) = .error (.scan ⟨1, 6⟩ .unclosedLiteral) := by
  have failed : tokenize openLiteralText = .error (.scan ⟨1, 6⟩ .unclosedLiteral) := by
    decide +kernel
  obtain ⟨-, -, tokens, scanned, fault⟩ := tokenize_fault failed
  have before : textBefore ⟨1, 6⟩ openLiteralText = "text " := by decide +kernel
  have behind : textFrom ⟨1, 6⟩ openLiteralText = "\"a\\\"\nb" := by decide +kernel
  simp only [Diagnostic.report, before, behind] at scanned fault
  rcases fault with ⟨isBrace, -⟩ | ⟨-, rest, whole, taken, same⟩
  · exact absurd isBrace (by decide)
  · obtain rfl : "a\\\"\nb" = rest := (String.append_right_inj "\"").mp whole
    exact ⟨failed, ⟨tokens, scanned⟩, taken "a\\" "\nb" (by decide) (by decide),
      same "a\\\"" "b" (by decide) (by decide)⟩

end Pagewright
