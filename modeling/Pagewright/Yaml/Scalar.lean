import Pagewright.Yaml.Cursor

set_option autoImplicit false

namespace Pagewright.Yaml

/-- What breaks within a scalar become: the first one is dropped if more follow, and a single one is
a space. -/
def foldBreaks : List Char → List Char
  | ['\n'] => [' ']
  | '\n' :: more => more
  | breaks => breaks

/-- What stands between two words of a scalar. -/
inductive Gap where
  /-- Spaces on one line, in reverse. -/
  | spaces (text : List Char)
  /-- Breaks in reverse, after a break that was escaped or not. -/
  | breaks (escaped : Bool) (text : List Char)
deriving DecidableEq, Repr

namespace Gap

def none : Gap := .spaces []

def isNone (gap : Gap) : Bool := gap = none

def hasBreak : Gap → Bool
  | .spaces _ => false
  | .breaks _ _ => true

def addSpace (c : Char) : Gap → Gap
  | .spaces text => .spaces (c :: text)
  | .breaks escaped text => .breaks escaped text

def addBreak (c : Char) : Gap → Gap
  | .spaces _ => .breaks false [c]
  | .breaks escaped text => .breaks escaped (c :: text)

/-- The text that the gap becomes, in reverse. -/
def folded : Gap → List Char
  | .spaces text => text
  | .breaks true text => text
  | .breaks false text => (foldBreaks text.reverse).reverse

end Gap

def isFlowIndicator (c : Char) : Bool :=
  c == ',' || c == '[' || c == ']' || c == '{' || c == '}'

/-- Characters that begin no plain scalar. -/
def isIndicator (c : Char) : Bool :=
  isFlowIndicator c || c == '-' || c == '?' || c == ':' || c == '#' || c == '&' || c == '*' ||
    c == '!' || c == '|' || c == '>' || c == '\'' || c == '"' || c == '%' || c == '@' || c == '`'

/-- Whether a plain scalar begins here. -/
def startsPlain (flow : Bool) : List Char → Bool
  | [] => false
  | c :: cs =>
    (!atGap (c :: cs) && !isIndicator c) || (c == '-' && !atGap cs) ||
      (!flow && (c == '?' || c == ':') && !atGap cs)

/-- Whether a plain scalar that was interrupted by a gap ends at this place. -/
def endsPlain (flow : Bool) (floor col : Nat) (text : List Char) : Bool :=
  (!flow && col < floor) || (col == 0 && (atMarker '-' text || atMarker '.' text)) ||
    text.head? == some '#'

/-- Whether a plain scalar ends before these characters. -/
def stopsPlain (flow : Bool) (c : Char) (cs : List Char) : Bool :=
  (c == ':' && atGap cs) || (flow && isFlowIndicator c)

/-- Whether a colon stands here that may not be part of a plain scalar in a flow collection. -/
def misplacedColon (c : Char) (cs : List Char) : Bool :=
  c == ':' && (cs.head?.any fun next => isFlowIndicator next || next == '?')

-- Each scalar is read to the place where the next token is looked for; a plain one takes the blanks
-- behind it along. Texts under construction are kept in reverse.

/-- A plain scalar. Further lines belong to it from the given column on, in a flow collection from
any column on. -/
def plainFrom (flow : Bool) (floor : Nat) (text : List Char) (gap : Gap) (line col : Nat) :
    List Char → Option (List Char × Cursor)
  | [] => some (text.reverse, ⟨[], line, col, gap.hasBreak⟩)
  | c :: cs =>
    if isBreak c then
      plainFrom flow floor text (gap.addBreak c) (line + 1) 0 cs
    else if isSpace c then
      if gap.hasBreak && c == '\t' && col < floor then
        none
      else
        plainFrom flow floor text (gap.addSpace c) line (col + 1) cs
    else if (!gap.isNone && endsPlain flow floor col (c :: cs)) then
      some (text.reverse, ⟨c :: cs, line, col, gap.hasBreak⟩)
    else if flow && misplacedColon c cs then
      none
    else if stopsPlain flow c cs then
      some (text.reverse, ⟨c :: cs, line, col, gap.hasBreak⟩)
    else
      plainFrom flow floor (c :: (gap.folded ++ text)) .none line (col + 1) cs

/-- A scalar between single quotes, behind the first. Two quotes stand for one. -/
def singleQuotedFrom (text : List Char) (gap : Gap) (line col : Nat) :
    List Char → Option (List Char × Cursor)
  | [] => none
  | '\'' :: '\'' :: cs => singleQuotedFrom ('\'' :: (gap.folded ++ text)) .none line (col + 2) cs
  | '\'' :: cs => some ((gap.folded ++ text).reverse, ⟨cs, line, col + 1, false⟩)
  | c :: cs =>
    if isBreak c then
      singleQuotedFrom text (gap.addBreak c) (line + 1) 0 cs
    else if isSpace c then
      singleQuotedFrom text (gap.addSpace c) line (col + 1) cs
    else if col == 0 && (atMarker '-' (c :: cs) || atMarker '.' (c :: cs)) then
      none
    else
      singleQuotedFrom (c :: (gap.folded ++ text)) .none line (col + 1) cs

/-- The character that a backslash and this one stand for. -/
def unescape : Char → Option Char
  | '0' => some '\x00'
  | 'a' => some '\x07'
  | 'b' => some '\x08'
  | 't' => some '\t'
  | '\t' => some '\t'
  | 'n' => some '\n'
  | 'v' => some '\x0b'
  | 'f' => some '\x0c'
  | 'r' => some '\r'
  | 'e' => some '\x1b'
  | ' ' => some ' '
  | '"' => some '"'
  | '/' => some '/'
  | '\\' => some '\\'
  | 'N' => some '\u0085'
  | '_' => some '\u00a0'
  | 'L' => some '\u2028'
  | 'P' => some '\u2029'
  | _ => none

/-- The value of a digit, letters in either case. -/
def digitValue? (c : Char) : Option Nat :=
  if c.isDigit then some (c.toNat - '0'.toNat)
  else if 'a' ≤ c && c ≤ 'f' then some (c.toNat - 'a'.toNat + 10)
  else if 'A' ≤ c && c ≤ 'F' then some (c.toNat - 'A'.toNat + 10)
  else none

/-- The number that digits of a base spell. -/
def number? (base : Nat) (digits : List Char) : Option Nat :=
  if digits.isEmpty then none
  else digits.foldlM (fun value c => do
    let digit ← digitValue? c
    if digit < base then some (value * base + digit) else none) 0

/-- The character of a code point in hexadecimal digits. -/
def codePoint? (digits : List Char) : Option Char := do
  let value ← number? 16 digits
  if value.isValidChar then some (Char.ofNat value) else none

/-- A scalar between double quotes, behind the first. -/
def doubleQuotedFrom (text : List Char) (gap : Gap) (line col : Nat) :
    List Char → Option (List Char × Cursor)
  | [] => none
  | '"' :: cs => some ((gap.folded ++ text).reverse, ⟨cs, line, col + 1, false⟩)
  | '\\' :: 'x' :: a :: b :: cs => do
    let c ← codePoint? [a, b]
    doubleQuotedFrom (c :: (gap.folded ++ text)) .none line (col + 4) cs
  | '\\' :: 'u' :: a :: b :: c :: d :: cs => do
    let c ← codePoint? [a, b, c, d]
    doubleQuotedFrom (c :: (gap.folded ++ text)) .none line (col + 6) cs
  | '\\' :: 'U' :: a :: b :: c :: d :: e :: f :: g :: h :: cs => do
    let c ← codePoint? [a, b, c, d, e, f, g, h]
    doubleQuotedFrom (c :: (gap.folded ++ text)) .none line (col + 10) cs
  | '\\' :: e :: cs =>
    if isBreak e then
      doubleQuotedFrom (gap.folded ++ text) (.breaks true []) (line + 1) 0 cs
    else do
      let c ← unescape e
      doubleQuotedFrom (c :: (gap.folded ++ text)) .none line (col + 2) cs
  | c :: cs =>
    if isBreak c then
      doubleQuotedFrom text (gap.addBreak c) (line + 1) 0 cs
    else if isSpace c then
      doubleQuotedFrom text (gap.addSpace c) line (col + 1) cs
    else if c == '\\' || (col == 0 && (atMarker '-' (c :: cs) || atMarker '.' (c :: cs))) then
      none
    else
      doubleQuotedFrom (c :: (gap.folded ++ text)) .none line (col + 1) cs

/-- What becomes of the breaks at the end of a block scalar. -/
inductive Chomp where
  | strip | clip | keep
deriving DecidableEq, Repr

/-- How a block scalar treats its lines. -/
structure BlockStyle where
  folded : Bool
  chomp : Chomp := .clip
  /-- How much deeper than its surroundings the block is, if that is said. -/
  increment : Option Nat := none
deriving DecidableEq, Repr

def chomp? : Char → Option Chomp
  | '+' => some .keep
  | '-' => some .strip
  | _ => none

/-- The indicators behind `|` or `>`, in either order, and what follows them. An increment of zero
is not allowed. -/
def blockStyle (folded : Bool) (text : List Char) : Option (BlockStyle × List Char) :=
  let increment (style : BlockStyle) : List Char → Option (BlockStyle × List Char)
    | c :: cs =>
      if c == '0' then none
      else if c.isDigit then some ({ style with increment := some (c.toNat - '0'.toNat) }, cs)
      else some (style, c :: cs)
    | [] => some (style, [])
  let chomping (style : BlockStyle) : List Char → BlockStyle × List Char
    | c :: cs =>
      match chomp? c with
      | some chomp => ({ style with chomp := chomp }, cs)
      | none => (style, c :: cs)
    | [] => (style, [])
  match chomping { folded := folded } text with
  | (style, rest) =>
    if rest.length < text.length then increment style rest
    else (increment style rest).map fun (style, rest) =>
      if style.increment.isSome then chomping style rest else (style, rest)

/-- The rest of the line behind the indicators, which may hold a comment only. -/
def blockHeaderEnd : List Char → Option (List Char)
  | [] => some []
  | c :: cs =>
    if isBreak c then some cs
    else if isSpace c then blockHeaderEnd cs
    else if c == '#' then some ((cs.dropWhile fun c => !isBreak c).drop 1)
    else none

/-- The widest indentation up to the first line with content. -/
def leadingIndent (widest col : Nat) : List Char → Option Nat
  | [] => some (max widest col)
  | c :: cs =>
    if c == ' ' then leadingIndent widest (col + 1) cs
    else if c == '\t' then none
    else if isBreak c then leadingIndent (max widest col) 0 cs
    else some (max widest col)

/-- The state in which the lines of a block scalar are read. -/
structure BlockState where
  text : List Char := []
  /-- The break behind the last line. -/
  lineBreak : List Char := []
  /-- The breaks of the empty lines after it, in reverse. -/
  emptyLines : List Char := []
  /-- Whether the last line began with a space. -/
  spaced : Bool := false
deriving DecidableEq, Repr

namespace BlockState

/-- Begins a line with its first character. Between lines that begin with no space a folded block
puts a space, or the breaks of the empty lines. -/
def beginLine (folded : Bool) (c : Char) (state : BlockState) : BlockState :=
  let joint := if folded && state.lineBreak == ['\n'] && !state.spaced && !isSpace c then
      (if state.emptyLines.isEmpty then [' '] else [])
    else state.lineBreak
  { text := c :: (state.emptyLines ++ (joint ++ state.text)), spaced := isSpace c }

def finish (chomp : Chomp) (state : BlockState) : List Char :=
  match chomp with
  | .strip => state.text.reverse
  | .clip => (state.lineBreak ++ state.text).reverse
  | .keep => (state.emptyLines ++ (state.lineBreak ++ state.text)).reverse

end BlockState

/-- The lines of a block scalar that are indented by the given number of spaces. -/
def blockLines (style : BlockStyle) (indent : Nat) (inLine : Bool) (state : BlockState)
    (line col : Nat) : List Char → Option (List Char × Cursor)
  | [] => some (state.finish style.chomp, ⟨[], line, col, true⟩)
  | c :: cs =>
    if isBreak c then
      let state := if inLine then { state with lineBreak := [c] }
        else { state with emptyLines := c :: state.emptyLines }
      blockLines style indent false state (line + 1) 0 cs
    else if inLine then
      blockLines style indent true { state with text := c :: state.text } line (col + 1) cs
    else if col < indent && c == ' ' then
      blockLines style indent false state line (col + 1) cs
    else if col < indent && c == '\t' then
      none
    else if col == indent then
      blockLines style indent true (state.beginLine style.folded c) line (col + 1) cs
    else
      some (state.finish style.chomp, ⟨c :: cs, line, col, true⟩)

/-- A block scalar, behind its first indicator. Its lines begin at the given column or farther
right. -/
def blockScalar (folded : Bool) (floor : Nat) (line : Nat) (text : List Char) :
    Option (List Char × Cursor) := do
  let (style, rest) ← blockStyle folded text
  let body ← blockHeaderEnd rest
  let indent ← match style.increment with
    | some increment => some (floor - 1 + increment)
    | none => (leadingIndent 0 0 body).map fun widest => max (max widest floor) 1
  blockLines style indent false {} (line + 1) 0 body

end Pagewright.Yaml
