import Pagewright.Token.Scan

set_option autoImplicit false

namespace Pagewright

open Text (isBlank)

/-- Blanks and comments. The line feed behind a comment is a blank; only the last gap of a text may
end in a comment. -/
inductive Gap (last : Bool) : List Char → Prop
  | nil : Gap last []
  | blank {c : Char} {text : List Char} (blank : isBlank c = true) (more : Gap last text) :
      Gap last (c :: text)
  | comment {body text : List Char} (oneLine : '\n' ∉ body) (more : Gap last ('\n' :: text)) :
      Gap last ('/' :: '/' :: body ++ '\n' :: text)
  | lastComment {body : List Char} (isLast : last = true) (oneLine : '\n' ∉ body) :
      Gap last ('/' :: '/' :: body)

/-- A run of characters that a word may have. -/
structure Unbroken (word : List Char) : Prop where
  plain : ∀ c ∈ word, isBlank c = false ∧ c ≠ '{' ∧ c ≠ '}' ∧ c ≠ '"'
  noComment : ¬ ['/', '/'] <:+: word

/-- The spelling of a literal behind its opening quote, and the text it stands for. The closing
quote is the first that no backslash takes. -/
inductive Quoted : List Char → List Char → Prop
  | close : Quoted ['"'] []
  | quote {spelling text : List Char} (more : Quoted spelling text) :
      Quoted ('\\' :: '"' :: spelling) ('"' :: text)
  | backslash {spelling text : List Char} (more : Quoted spelling text) :
      Quoted ('\\' :: '\\' :: spelling) ('\\' :: text)
  | plain {c : Char} {spelling text : List Char} (notQuote : c ≠ '"') (oneLine : c ≠ '\n')
      (alone : c = '\\' → spelling.head? ≠ some '"' ∧ spelling.head? ≠ some '\\')
      (more : Quoted spelling text) : Quoted (c :: spelling) (c :: text)

/-- The characters that stand for a lexeme. The end of the input has none. -/
inductive Spells : List Char → Lexeme → Prop
  | word {text : List Char} (nonempty : text ≠ []) (unbroken : Unbroken text) :
      Spells text (.word (String.ofList text))
  | literal {spelling text : List Char} (quoted : Quoted spelling text) :
      Spells ('"' :: spelling) (.literal (String.ofList text))
  | openBrace : Spells ['{'] .openBrace
  | closeBrace : Spells ['}'] .closeBrace

/-- Whether a blank or a comment stands here. -/
def startsGap : List Char → Bool
  | [] => false
  | c :: cs => isBlank c || startsComment (c :: cs)

/-- Where the scanner ends a word. -/
structure EndsBefore (word rest : List Char) : Prop where
  ends : endsWord rest = true
  /-- The last character of the word begins no comment. -/
  slash : word.getLast? = some '/' → rest.head? ≠ some '/'

theorem startsComment_eq_true_iff (text : List Char) :
    startsComment text = true ↔ ∃ more, text = '/' :: '/' :: more := by
  constructor
  · intro starts
    unfold startsComment at starts
    split at starts
    · exact ⟨_, rfl⟩
    · cases starts
  · rintro ⟨more, rfl⟩
    rfl

section Gaps

theorem splitGap_of_not_startsGap {text : List Char} (stops : startsGap text = false) :
    splitGap false text = ([], text) := by
  cases text with
  | nil => rfl
  | cons c cs =>
    rw [startsGap] at stops
    rw [splitGap, Bool.false_or, stops]
    rfl

theorem splitGap_blank {c : Char} (blank : isBlank c = true) (text : List Char) :
    splitGap false (c :: text) = (c :: (splitGap false text).1, (splitGap false text).2) := by
  have noComment : startsComment (c :: text) = false := by
    rw [Bool.eq_false_iff, ne_eq, startsComment_eq_true_iff]
    rintro ⟨more, same⟩
    rw [(List.cons.inj same).1] at blank
    exact absurd blank (by decide)
  rw [splitGap, blank, noComment]
  rfl

theorem splitGap_comment (text : List Char) :
    splitGap false ('/' :: '/' :: text) =
      ('/' :: '/' :: (splitGap true text).1, (splitGap true text).2) := rfl

theorem splitGap_inComment_cons {c : Char} (notFeed : c ≠ '\n') (cs : List Char) :
    splitGap true (c :: cs) = (c :: (splitGap true cs).1, (splitGap true cs).2) := by
  have inside : ((true || startsComment (c :: cs)) && c != '\n') = true := by
    rw [Bool.true_or, Bool.true_and, bne_iff_ne]
    exact notFeed
  rw [splitGap, inside]
  rfl

/-- A comment is taken up to its line feed. -/
theorem splitGap_inComment {body : List Char} (oneLine : '\n' ∉ body) (text : List Char) :
    splitGap true (body ++ '\n' :: text) =
      (body ++ (splitGap false ('\n' :: text)).1, (splitGap false ('\n' :: text)).2) := by
  induction body with
  | nil => rfl
  | cons c cs ih =>
    rw [List.mem_cons, not_or] at oneLine
    rw [List.cons_append, splitGap_inComment_cons (Ne.symm oneLine.1), ih oneLine.2]
    rfl

theorem splitGap_inLastComment {body : List Char} (oneLine : '\n' ∉ body) :
    splitGap true body = (body, []) := by
  induction body with
  | nil => rfl
  | cons c cs ih =>
    rw [List.mem_cons, not_or] at oneLine
    rw [splitGap_inComment_cons (Ne.symm oneLine.1), ih oneLine.2]

theorem Gap.splitGap_eq {last : Bool} {gap rest : List Char} (isGap : Gap last gap)
    (atEnd : last = true → rest = []) (stops : startsGap rest = false) :
    splitGap false (gap ++ rest) = (gap, rest) := by
  induction isGap with
  | nil => exact splitGap_of_not_startsGap stops
  | blank blank _ ih => rw [List.cons_append, splitGap_blank blank, ih]
  | @comment body text oneLine _ ih =>
    have whole : '/' :: '/' :: body ++ '\n' :: text ++ rest =
        '/' :: '/' :: (body ++ '\n' :: (text ++ rest)) := by simp
    rw [List.cons_append] at ih
    rw [whole, splitGap_comment, splitGap_inComment oneLine, ih]
    rfl
  | @lastComment body isLast oneLine =>
    rw [atEnd isLast, List.append_nil, splitGap_comment, splitGap_inLastComment oneLine]

/-- Every text begins with a gap behind which no gap begins. -/
theorem exists_gap (text : List Char) :
    ∃ gap rest, text = gap ++ rest ∧ Gap rest.isEmpty gap ∧ startsGap rest = false := by
  induction size : text.length using Nat.strongRecOn generalizing text with
  | ind size ih =>
    subst size
    by_cases stops : startsGap text = false
    · exact ⟨[], text, rfl, .nil, stops⟩
    cases text with
    | nil => exact absurd rfl stops
    | cons c cs =>
      rw [startsGap, Bool.not_eq_false, Bool.or_eq_true, startsComment_eq_true_iff] at stops
      rcases stops with blank | ⟨more, whole⟩
      · obtain ⟨gap, rest, rfl, isGap, ends⟩ := ih cs.length (Nat.lt_succ_self _) cs rfl
        exact ⟨c :: gap, rest, rfl, .blank blank isGap, ends⟩
      · rw [whole] at ih ⊢
        by_cases feed : '\n' ∈ more
        · obtain ⟨body, text, rfl, oneLine⟩ := List.eq_append_cons_of_mem feed
          obtain ⟨gap, rest, rfl, isGap, ends⟩ := ih text.length (by simp; omega) text rfl
          refine ⟨'/' :: '/' :: body ++ '\n' :: gap, rest, ?_, ?_, ends⟩
          · simp
          · exact .comment oneLine (.blank Text.isBlank_newline isGap)
        · exact ⟨'/' :: '/' :: more, [], by simp, .lastComment rfl feed, rfl⟩

theorem splitGap_eq_iff (text gap rest : List Char) :
    splitGap false text = (gap, rest) ↔
      text = gap ++ rest ∧ Gap rest.isEmpty gap ∧ startsGap rest = false := by
  constructor
  · intro split
    obtain ⟨front, back, rfl, isGap, stops⟩ := exists_gap text
    have found := isGap.splitGap_eq List.isEmpty_iff.mp stops
    cases found.symm.trans split
    exact ⟨rfl, isGap, stops⟩
  · rintro ⟨rfl, isGap, stops⟩
    exact isGap.splitGap_eq List.isEmpty_iff.mp stops

end Gaps

section Words

theorem endsWord_cons (c : Char) (cs : List Char) :
    endsWord (c :: cs) = false ↔
      (isBlank c = false ∧ c ≠ '{' ∧ c ≠ '}' ∧ c ≠ '"') ∧ startsComment (c :: cs) = false := by
  simp only [endsWord, Bool.or_eq_false_iff, beq_eq_false_iff_ne, and_assoc]

/-- A comment that begins inside a word shows there or at its end. -/
theorem startsComment_append {word rest : List Char} (nonempty : word ≠ [])
    (noComment : ¬ ['/', '/'] <:+: word)
    (slash : word.getLast? = some '/' → rest.head? ≠ some '/') :
    startsComment (word ++ rest) = false := by
  rw [Bool.eq_false_iff, ne_eq, startsComment_eq_true_iff]
  rintro ⟨more, whole⟩
  match word, nonempty with
  | [c], _ =>
    obtain ⟨rfl, rfl⟩ := List.cons.inj whole
    exact slash rfl rfl
  | c :: d :: ds, _ =>
    obtain ⟨rfl, tails⟩ := List.cons.inj whole
    obtain ⟨rfl, -⟩ := List.cons.inj tails
    exact noComment ⟨[], ds, rfl⟩

theorem Unbroken.tail {c : Char} {word : List Char} (unbroken : Unbroken (c :: word)) :
    Unbroken word where
  plain d mem := unbroken.plain d (List.mem_cons_of_mem c mem)
  noComment inside := unbroken.noComment (inside.trans (List.suffix_cons c word).isInfix)

/-- A word goes on at each of its characters. -/
theorem Unbroken.not_endsWord {word rest : List Char} (unbroken : Unbroken word)
    (nonempty : word ≠ []) (ends : EndsBefore word rest) : endsWord (word ++ rest) = false := by
  have noComment := startsComment_append nonempty unbroken.noComment ends.slash
  cases word with
  | nil => exact absurd rfl nonempty
  | cons c cs => exact (endsWord_cons c _).mpr ⟨unbroken.plain c List.mem_cons_self, noComment⟩

theorem Unbroken.splitWord_eq {word rest : List Char} (unbroken : Unbroken word)
    (ends : EndsBefore word rest) : splitWord (word ++ rest) = (word, rest) := by
  induction word with
  | nil =>
    cases rest with
    | nil => rfl
    | cons c cs => rw [List.nil_append, splitWord, if_pos ends.ends]
  | cons c cs ih =>
    have goesOn := unbroken.not_endsWord (List.cons_ne_nil c cs) ends
    have tailEnds : EndsBefore cs rest := ⟨ends.ends, fun isSlash => ends.slash (by
      rw [List.getLast?_cons, isSlash]
      rfl)⟩
    rw [List.cons_append] at goesOn ⊢
    rw [splitWord, goesOn, ih unbroken.tail tailEnds]
    rfl

/-- Every text begins with the characters of a word, perhaps none. -/
theorem exists_word (text : List Char) :
    ∃ word rest, text = word ++ rest ∧ Unbroken word ∧ EndsBefore word rest := by
  induction text with
  | nil => exact ⟨[], [], rfl, ⟨by simp, by simp⟩, rfl, by simp⟩
  | cons c cs ih =>
    cases stops : endsWord (c :: cs) with
    | true => exact ⟨[], c :: cs, rfl, ⟨by simp, by simp⟩, stops, by simp⟩
    | false =>
      obtain ⟨word, rest, rfl, unbroken, ends⟩ := ih
      obtain ⟨plain, noComment⟩ := (endsWord_cons c _).mp stops
      refine ⟨c :: word, rest, rfl, ⟨?_, ?_⟩, ends.ends, ?_⟩
      · exact List.forall_mem_cons.mpr ⟨plain, unbroken.plain⟩
      · intro inside
        rcases List.infix_cons_iff.mp inside with ⟨more, whole⟩ | inside
        · obtain ⟨rfl, rfl⟩ := List.cons.inj whole
          exact absurd noComment (by simp [startsComment])
        · exact unbroken.noComment inside
      · intro isSlash startsSlash
        cases word with
        | nil =>
          obtain ⟨more, rfl⟩ := List.head?_eq_some_iff.mp startsSlash
          obtain rfl : c = '/' := Option.some.inj isSlash
          exact absurd noComment (by simp [startsComment])
        | cons d ds =>
          rw [List.getLast?_cons_cons] at isSlash
          exact ends.slash isSlash startsSlash

theorem splitWord_eq_iff (text word rest : List Char) :
    splitWord text = (word, rest) ↔
      text = word ++ rest ∧ Unbroken word ∧ EndsBefore word rest := by
  constructor
  · intro split
    obtain ⟨front, back, rfl, unbroken, ends⟩ := exists_word text
    cases (unbroken.splitWord_eq ends).symm.trans split
    exact ⟨rfl, unbroken, ends⟩
  · rintro ⟨rfl, unbroken, ends⟩
    exact unbroken.splitWord_eq ends

end Words

section Literals

theorem Quoted.head?_append {spelling text : List Char} (quoted : Quoted spelling text)
    (rest : List Char) : (spelling ++ rest).head? = spelling.head? := by
  cases quoted <;> rfl

theorem Quoted.splitLiteral_eq {spelling text : List Char} (quoted : Quoted spelling text)
    (rest : List Char) : splitLiteral (spelling ++ rest) = ⟨text, spelling, rest, true⟩ := by
  induction quoted with
  | close => rfl
  | quote _ ih | backslash _ ih =>
    simp only [List.cons_append, splitLiteral, ih]
    rfl
  | @plain c spelling text notQuote oneLine alone more ih =>
    have first := more.head?_append rest
    rw [List.cons_append, splitLiteral.eq_6 c _ oneLine notQuote, ih]
    · rfl
    · intro cs isBackslash takesQuote
      rw [takesQuote] at first
      exact (alone isBackslash).1 first.symm
    · intro cs isBackslash takesBackslash
      rw [takesBackslash] at first
      exact (alone isBackslash).2 first.symm

theorem splitLiteral_quoted {cs : List Char} (closed : (splitLiteral cs).closed = true) :
    Quoted (splitLiteral cs).spelling (splitLiteral cs).text := by
  fun_induction splitLiteral cs with
  | case1 | case2 => cases closed
  | case3 => exact .close
  | case4 cs ih => exact .quote (ih closed)
  | case5 cs ih => exact .backslash (ih closed)
  | case6 c cs notFeed notQuote noQuote noBackslash ih =>
    have quoted := ih closed
    have first := quoted.head?_append (splitLiteral cs).rest
    rw [splitLiteral_append] at first
    refine .plain notQuote notFeed ?_ quoted
    intro isBackslash
    constructor
    · intro takesQuote
      obtain ⟨more, whole⟩ := List.head?_eq_some_iff.mp (first.trans takesQuote)
      exact noQuote more isBackslash whole
    · intro takesBackslash
      obtain ⟨more, whole⟩ := List.head?_eq_some_iff.mp (first.trans takesBackslash)
      exact noBackslash more isBackslash whole

end Literals

end Pagewright
