import Pagewright.Diagnostic
import Pagewright.Text.Blank

set_option autoImplicit false

namespace Pagewright

open Text (isBlank)

def startsComment : List Char → Bool
  | '/' :: '/' :: _ => true
  | _ => false

/-- Splits off the blanks and comments at the front. A comment ends before a line feed. -/
def splitGap (inComment : Bool) : List Char → List Char × List Char
  | [] => ([], [])
  | c :: cs =>
    if inComment || isBlank c || startsComment (c :: cs) then
      let split := splitGap ((inComment || startsComment (c :: cs)) && c != '\n') cs
      (c :: split.1, split.2)
    else
      ([], c :: cs)

theorem splitGap_append (inComment : Bool) (text : List Char) :
    (splitGap inComment text).1 ++ (splitGap inComment text).2 = text := by
  induction text generalizing inComment with
  | nil => rfl
  | cons c cs ih =>
    rw [splitGap]
    split
    · simp only [List.cons_append, ih]
    · rfl

/-- Whether a word that reaches this text ends before it. -/
def endsWord : List Char → Bool
  | [] => true
  | c :: cs => isBlank c || c == '{' || c == '}' || c == '"' || startsComment (c :: cs)

/-- Splits off the word at the front. -/
def splitWord : List Char → List Char × List Char
  | [] => ([], [])
  | c :: cs =>
    if endsWord (c :: cs) then
      ([], c :: cs)
    else
      let split := splitWord cs
      (c :: split.1, split.2)

theorem splitWord_append (text : List Char) :
    (splitWord text).1 ++ (splitWord text).2 = text := by
  induction text with
  | nil => rfl
  | cons c cs ih =>
    rw [splitWord]
    split
    · rfl
    · simp only [List.cons_append, ih]

/-- What follows an opening quote: the decoded text, the characters that spell it (with the closing
quote, if there is one), and what is left. -/
structure LiteralSplit where
  text : List Char
  spelling : List Char
  rest : List Char
  closed : Bool
deriving DecidableEq, Repr

def LiteralSplit.push (split : LiteralSplit) (c : Char) (spelling : List Char) : LiteralSplit :=
  { split with text := c :: split.text, spelling := spelling ++ split.spelling }

/-- Splits off a literal after its opening quote. A backslash before a quote or a backslash stands
for the character it precedes, any other backslash for itself. A literal ends on its line. -/
def splitLiteral : List Char → LiteralSplit
  | [] => ⟨[], [], [], false⟩
  | '\n' :: cs => ⟨[], [], '\n' :: cs, false⟩
  | '"' :: cs => ⟨[], ['"'], cs, true⟩
  | '\\' :: '"' :: cs => (splitLiteral cs).push '"' ['\\', '"']
  | '\\' :: '\\' :: cs => (splitLiteral cs).push '\\' ['\\', '\\']
  | c :: cs => (splitLiteral cs).push c [c]

theorem splitLiteral_append (text : List Char) :
    (splitLiteral text).spelling ++ (splitLiteral text).rest = text := by
  fun_induction splitLiteral text <;> simp_all [LiteralSplit.push]

/-- A text that is read from the front: what is left of it, where that begins, and how many braces
are open. It is kept after a failure and can be asked for tokens again. -/
structure Scanner where
  rest : List Char
  pos : Position
  depth : Nat
deriving DecidableEq, Repr

namespace Scanner

def ofText (text : String) : Scanner := ⟨text.toList, .start, 0⟩

/-- The scanner after a spelling, with the given rest. -/
def move (scanner : Scanner) (spelling rest : List Char) : Scanner :=
  { scanner with rest := rest, pos := scanner.pos.after spelling }

def skipGap (scanner : Scanner) : Scanner :=
  let split := splitGap false scanner.rest
  scanner.move split.1 split.2

theorem skipGap_length_le (scanner : Scanner) :
    scanner.skipGap.rest.length ≤ scanner.rest.length := by
  have whole := congrArg List.length (splitGap_append false scanner.rest)
  rw [List.length_append] at whole
  simp only [skipGap, move]
  omega

/-- The token at a scanner that stands on no blank and no comment. A brace that closes nothing is
not passed; a literal that is not closed is passed up to the end of its line. -/
def tokenHere (scanner : Scanner) : Except Diagnostic Token × Scanner :=
  match scanner.rest with
  | [] => (.ok ⟨.endOfInput, scanner.pos⟩, scanner)
  | '{' :: cs =>
    (.ok ⟨.openBrace, scanner.pos⟩, { scanner.move ['{'] cs with depth := scanner.depth + 1 })
  | '}' :: cs =>
    if scanner.depth = 0 then
      (.error (.scan scanner.pos .unmatchedBrace), scanner)
    else
      (.ok ⟨.closeBrace, scanner.pos⟩, { scanner.move ['}'] cs with depth := scanner.depth - 1 })
  | '"' :: cs =>
    let split := splitLiteral cs
    let after := scanner.move ('"' :: split.spelling) split.rest
    if split.closed then
      (.ok ⟨.literal (String.ofList split.text), scanner.pos⟩, after)
    else
      (.error (.scan scanner.pos .unclosedLiteral), after)
  | c :: cs =>
    let split := splitWord cs
    (.ok ⟨.word (String.ofList (c :: split.1)), scanner.pos⟩,
      scanner.move (c :: split.1) split.2)

def next (scanner : Scanner) : Except Diagnostic Token × Scanner :=
  scanner.skipGap.tokenHere

theorem tokenHere_shorter {scanner after : Scanner} {token : Token}
    (read : scanner.tokenHere = (.ok token, after)) (more : token.lexeme ≠ .endOfInput) :
    after.rest.length < scanner.rest.length := by
  unfold tokenHere at read
  split at read
  · cases read
    exact absurd rfl more
  · rename_i whole
    cases read
    simp [move, whole]
  · rename_i whole
    split at read <;> cases read
    simp [move, whole]
  · rename_i cs whole
    have split_append := congrArg List.length (splitLiteral_append cs)
    rw [List.length_append] at split_append
    dsimp only at read
    split at read <;> cases read
    simp only [move, whole, List.length_cons]
    omega
  · rename_i c cs _ _ _ whole
    have split_append := congrArg List.length (splitWord_append cs)
    rw [List.length_append] at split_append
    cases read
    simp only [move, whole, List.length_cons]
    omega

theorem next_shorter {scanner after : Scanner} {token : Token}
    (read : scanner.next = (.ok token, after)) (more : token.lexeme ≠ .endOfInput) :
    after.rest.length < scanner.rest.length :=
  Nat.lt_of_lt_of_le (tokenHere_shorter read more) scanner.skipGap_length_le

/-- All tokens up to the end of the text, which is the last of them, and the scanner as it is left,
also after a failure. -/
def tokens (scanner : Scanner) : Except Diagnostic (List Token) × Scanner :=
  match read : scanner.next with
  | (.error diagnostic, after) => (.error diagnostic, after)
  | (.ok token, after) =>
    if last : token.lexeme = .endOfInput then
      (.ok [token], after)
    else
      have := next_shorter read last
      let more := tokens after
      (more.1.map (token :: ·), more.2)
termination_by scanner.rest.length

theorem tokens_of_error {scanner after : Scanner} {diagnostic : Diagnostic}
    (read : scanner.next = (.error diagnostic, after)) :
    scanner.tokens = (.error diagnostic, after) := by
  rw [tokens]
  split <;> simp_all

theorem tokens_of_end {scanner after : Scanner} {token : Token}
    (read : scanner.next = (.ok token, after)) (last : token.lexeme = .endOfInput) :
    scanner.tokens = (.ok [token], after) := by
  rw [tokens]
  split <;> simp_all

theorem tokens_of_token {scanner after : Scanner} {token : Token}
    (read : scanner.next = (.ok token, after)) (more : token.lexeme ≠ .endOfInput) :
    scanner.tokens = (after.tokens.1.map (token :: ·), after.tokens.2) := by
  rw [tokens]
  split <;> simp_all

/-- The answers of a scanner that is asked for its tokens again and again. -/
def repeated (scanner : Scanner) : Nat → List (Except Diagnostic (List Token))
  | 0 => []
  | calls + 1 => scanner.tokens.1 :: repeated scanner.tokens.2 calls

end Scanner

/-- The tokens of a source text, with the end of the input as the last. -/
def tokenize (source : String) : Except Diagnostic (List Token) :=
  (Scanner.ofText source).tokens.1

end Pagewright
