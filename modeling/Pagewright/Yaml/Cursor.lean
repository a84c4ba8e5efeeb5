set_option autoImplicit false

namespace Pagewright.Yaml

def byteOrderMark : Char := '\ufeff'

/-- The characters that a document may hold, in comments too. -/
def isAllowed (c : Char) : Bool :=
  c == '\t' || c == '\n' || c == '\r' || (0x20 ≤ c.toNat && c.toNat ≤ 0x7e) || c.toNat == 0x85 ||
    (0xa0 ≤ c.toNat && c.toNat ≤ 0xfffd) || 0x10000 ≤ c.toNat

/-- Writes every break that is not kept in a text as a line feed. -/
def normalizeBreaks : List Char → List Char
  | [] => []
  | '\r' :: '\n' :: cs => '\n' :: normalizeBreaks cs
  | c :: cs => (if c == '\r' || c.toNat == 0x85 then '\n' else c) :: normalizeBreaks cs

/-- A line ends at a line feed, a line separator or a paragraph separator. -/
def isBreak (c : Char) : Bool := c == '\n' || c == '\u2028' || c == '\u2029'

def isSpace (c : Char) : Bool := c == ' ' || c == '\t'

/-- Whether a word ends before this text. -/
def atGap : List Char → Bool
  | [] => true
  | c :: _ => isSpace c || isBreak c

/-- Whether a colon stands here that ends a key of a block. -/
def atColon : List Char → Bool
  | ':' :: cs => atGap cs
  | _ => false

/-- Whether a dash stands here that begins an entry of a block. -/
def atDash : List Char → Bool
  | '-' :: cs => atGap cs
  | _ => false

/-- Whether a question mark stands here that begins a key of a block. -/
def atQuestion : List Char → Bool
  | '?' :: cs => atGap cs
  | _ => false

/-- Three times the same character and then a gap. -/
def atMarker (mark : Char) : List Char → Bool
  | a :: b :: c :: cs => a == mark && b == mark && c == mark && atGap cs
  | _ => false

/-- A place in a document. Lines and columns count from zero. -/
structure Cursor where
  rest : List Char
  line : Nat
  col : Nat
  /-- Whether a key or an entry of a block may begin here: only the beginning of a line or another
  entry is before it. -/
  fresh : Bool
deriving DecidableEq, Repr

namespace Cursor

/-- The place behind characters of one line. -/
def move (cursor : Cursor) (width : Nat) (rest : List Char) (fresh : Bool) : Cursor :=
  ⟨rest, cursor.line, cursor.col + width, fresh⟩

/-- The place behind one character. -/
def pass (cursor : Cursor) (fresh : Bool) : Cursor := cursor.move 1 (cursor.rest.drop 1) fresh

/-- Whether a document begins here. -/
def atStart (cursor : Cursor) : Bool := cursor.col == 0 && atMarker '-' cursor.rest

/-- Whether a document is ended here. -/
def atEnd (cursor : Cursor) : Bool := cursor.col == 0 && atMarker '.' cursor.rest

/-- Whether no node of the document can follow. -/
def isFinal (cursor : Cursor) : Bool :=
  cursor.rest.isEmpty || cursor.atStart || cursor.atEnd

/-- The next place that holds a token. Tabs do not count as space where a key of a block may
begin. -/
def skipFrom (flow inComment : Bool) (line col : Nat) (fresh : Bool) : List Char → Cursor
  | [] => ⟨[], line, col, fresh⟩
  | c :: cs =>
    if isBreak c then
      skipFrom flow false (line + 1) 0 (fresh || !flow) cs
    else if inComment || c == ' ' || c == '#' || (c == '\t' && (flow || !fresh)) ||
        (c == byteOrderMark && col == 0) then
      skipFrom flow (inComment || c == '#') line (col + 1) fresh cs
    else
      ⟨c :: cs, line, col, fresh⟩

def skip (flow : Bool) (cursor : Cursor) : Cursor :=
  skipFrom flow false cursor.line cursor.col cursor.fresh cursor.rest

/-- The bytes that a text takes in UTF-8. -/
def byteSize (text : List Char) : Nat :=
  text.foldl (fun size c => size + c.utf8Size) 0

/-- How many bytes a key may take up to its colon. -/
def keyLimit : Nat := 1024

/-- Whether what begins at the first cursor can be the key of a colon at the second. On one line the
columns tell how many characters are between them. -/
def reachesKey (start colon : Cursor) : Bool :=
  start.line == colon.line && byteSize (start.rest.take (colon.col - start.col)) ≤ keyLimit

end Cursor

end Pagewright.Yaml
