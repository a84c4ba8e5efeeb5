import Pagewright.Yaml
import Pagewright.Yaml.Scalar

set_option autoImplicit false

namespace Pagewright.Yaml

/-- A node and the place behind it. -/
abbrev Parsed : Type := Option (Yaml × Cursor)

def asScalar (plain : Bool) (result : Option (List Char × Cursor)) : Parsed :=
  result.map fun (text, after) => (.scalar plain (String.ofList text), after)

/-- A scalar on or within its line: quoted or plain. -/
def lineScalar (flow : Bool) (floor : Nat) (cursor : Cursor) : Parsed :=
  match cursor.rest with
  | '"' :: cs => asScalar false (doubleQuotedFrom [] .none cursor.line (cursor.col + 1) cs)
  | '\'' :: cs => asScalar false (singleQuotedFrom [] .none cursor.line (cursor.col + 1) cs)
  | rest =>
    if startsPlain flow rest then
      asScalar true (plainFrom flow floor [] .none cursor.line cursor.col rest)
    else
      none

/-- A block scalar, if one begins here. -/
def blockScalar? (floor : Nat) (cursor : Cursor) : Option Parsed :=
  match cursor.rest with
  | '|' :: cs => some (asScalar false (blockScalar false floor cursor.line cs))
  | '>' :: cs => some (asScalar false (blockScalar true floor cursor.line cs))
  | _ => none

-- The column that a nested node must reach is its floor. The fuel bounds the depth of the
-- recursion, by the length of the document.

mutual

/-- A node of a flow collection. -/
def flowNode (fuel floor : Nat) (cursor : Cursor) : Parsed :=
  match fuel with
  | 0 => none
  | fuel + 1 =>
    if cursor.isFinal then none
    else match cursor.rest with
      | '[' :: _ => (flowEntries fuel ']' floor (cursor.pass false)).map
          fun (entries, after) => (.sequence (entries.map fun
            | (item, none) => item
            | (key, some value) => .mapping [(key, value)]), after)
      | '{' :: _ => (flowEntries fuel '}' floor (cursor.pass false)).map
          fun (entries, after) => (.mapping (entries.map fun (key, value) =>
            (key, value.getD .empty)), after)
      | _ => lineScalar true floor cursor

/-- The entries of a flow collection up to its closing bracket. A comma may stand behind the
last. -/
def flowEntries (fuel : Nat) (close : Char) (floor : Nat) (cursor : Cursor) :
    Option (List (Yaml × Option Yaml) × Cursor) :=
  match fuel with
  | 0 => none
  | fuel + 1 => do
    let start := cursor.skip true
    if start.rest.head? = some close then
      some ([], start.pass false)
    else
      let (entry, after) ← flowEntry fuel close floor start
      if after.rest.head? = some ',' then
        let (others, last) ← flowEntries fuel close floor (after.pass false)
        some (entry :: others, last)
      else if after.rest.head? = some close then
        some ([entry], after.pass false)
      else
        none

/-- An entry of a flow collection: a node, or a key and a value. A node is a key if a colon follows
on its line, or if it stands behind a question mark. -/
def flowEntry (fuel : Nat) (close : Char) (floor : Nat) (start : Cursor) :
    Option ((Yaml × Option Yaml) × Cursor) :=
  match fuel with
  | 0 => none
  | fuel + 1 =>
    if start.rest.head? = some '?' then do
      let (key, after) ← flowKey fuel close floor ((start.pass false).skip true)
      let (value, after) ← flowValue fuel close floor after
      some ((key, some (value.getD .empty)), after)
    else do
      let (node, after) ← flowNode fuel floor start
      let next := after.skip true
      if next.rest.head? = some ':' && !start.reachesKey next then
        none
      else
        let (value, after) ← flowValue fuel close floor next
        some ((node, value), after)

/-- The key behind a question mark. In a sequence the indicator behind an empty key is lost; if it
is the closing bracket, another one has to follow. -/
def flowKey (fuel : Nat) (close : Char) (floor : Nat) (cursor : Cursor) : Parsed :=
  match fuel with
  | 0 => none
  | fuel + 1 =>
    let isClosed := cursor.rest.head? = some close
    if isClosed || cursor.rest.head? = some ':' || cursor.rest.head? = some ',' then
      if close = ']' then
        let next := (cursor.pass false).skip true
        if isClosed && next.rest.head? != some close then none else some (.empty, next)
      else
        some (.empty, cursor)
    else
      (flowNode fuel floor cursor).map fun (key, after) => (key, after.skip true)

/-- The value behind a colon, if there is a colon. -/
def flowValue (fuel : Nat) (close : Char) (floor : Nat) (colon : Cursor) :
    Option (Option Yaml × Cursor) :=
  match fuel with
  | 0 => none
  | fuel + 1 =>
    if colon.rest.head? = some ':' then
      let next := (colon.pass false).skip true
      if next.rest.head? = some ',' || next.rest.head? = some close then
        some (some .empty, next)
      else
        (flowNode fuel floor next).map fun (value, after) => (some value, after.skip true)
    else
      some (none, colon)

end

/-- What can be the key of an entry of a block: a scalar within its line or a flow collection. -/
def keyNode (fuel floor : Nat) (cursor : Cursor) : Parsed :=
  match cursor.rest with
  | '[' :: _ => flowNode fuel floor cursor
  | '{' :: _ => flowNode fuel floor cursor
  | _ => lineScalar false floor cursor

/-- The colon that makes a node a key, if it stands behind the node. -/
def keyColon? (start after : Cursor) : Option Cursor :=
  let colon := after.skip false
  if atColon colon.rest && start.reachesKey colon then
    some (colon.pass false)
  else
    none

mutual

/-- A node at or right of its floor. -/
def blockNode (fuel floor : Nat) (cursor : Cursor) : Parsed :=
  match fuel with
  | 0 => none
  | fuel + 1 =>
    if atDash cursor.rest then
      if cursor.fresh then
        (blockItems fuel cursor.col false cursor).map fun (items, after) => (.sequence items, after)
      else
        none
    else if cursor.fresh && atQuestion cursor.rest then
      (blockEntries fuel cursor.col cursor).map fun (entries, after) => (.mapping entries, after)
    else match blockScalar? floor cursor with
      | some result => result
      | none => do
        let (node, after) ← keyNode fuel floor cursor
        if cursor.fresh && (keyColon? cursor after).isSome then
          (blockEntries fuel cursor.col cursor).map fun (entries, after) =>
            (.mapping entries, after)
        else
          some (node, after)

/-- The entries of a block mapping whose keys begin at the column, from one of them on. Only at the
beginning of a line can a further one begin. -/
def blockEntries (fuel col : Nat) (cursor : Cursor) : Option (List (Yaml × Yaml) × Cursor) :=
  match fuel with
  | 0 => none
  | fuel + 1 => do
    let (entry, after) ← blockEntry fuel col cursor
    let next := after.skip false
    if next.isFinal || next.col < col then
      some ([entry], next)
    else if next.col = col && next.fresh then
      let (others, last) ← blockEntries fuel col next
      some (entry :: others, last)
    else
      none

/-- An entry of a block mapping: a key with a colon on its line, or a key behind a question mark
with a colon below the mark, if it has one. -/
def blockEntry (fuel col : Nat) (cursor : Cursor) : Option ((Yaml × Yaml) × Cursor) :=
  match fuel with
  | 0 => none
  | fuel + 1 =>
    if atQuestion cursor.rest then do
      let (key, after) ← blockValue fuel true (col + 1) (cursor.pass true)
      let next := after.skip false
      if next.col = col && next.fresh && atColon next.rest then
        let (value, after) ← blockValue fuel true (col + 1) (next.pass true)
        some ((key, value), after)
      else
        some ((key, .empty), next)
    else do
      let (key, after) ← keyNode fuel (col + 1) cursor
      let colon ← keyColon? cursor after
      let (value, after) ← blockValue fuel true (col + 1) colon
      some ((key, value), after)

/-- The items of a block sequence whose dashes stand at the column, from the first dash on. As the
value of a key at the same column it ends where no dash follows. -/
def blockItems (fuel col : Nat) (inMapping : Bool) (dash : Cursor) :
    Option (List Yaml × Cursor) :=
  match fuel with
  | 0 => none
  | fuel + 1 => do
    let (item, after) ← blockValue fuel false (col + 1) (dash.pass true)
    let next := after.skip false
    if next.isFinal || next.col < col || (next.col = col && inMapping && !atDash next.rest) then
      some ([item], next)
    else if next.col = col && next.fresh && atDash next.rest then
      let (others, last) ← blockItems fuel col inMapping next
      some (item :: others, last)
    else
      none

/-- The node behind a colon or a dash. Nothing right of the floor means nothing at all, but a block
scalar, and the dashes of the value of a key, may stand one column left of it. -/
def blockValue (fuel : Nat) (inMapping : Bool) (floor : Nat) (cursor : Cursor) : Parsed :=
  match fuel with
  | 0 => none
  | fuel + 1 =>
    let next := cursor.skip false
    if next.isFinal then
      some (.empty, next)
    else if floor ≤ next.col then
      blockNode fuel floor next
    else if floor = next.col + 1 then
      if inMapping && atDash next.rest then
        (blockItems fuel next.col true next).map fun (items, after) => (.sequence items, after)
      else match blockScalar? floor next with
        | some result => result
        | none => some (.empty, next)
    else
      some (.empty, next)

end

/-- Whether nothing but ends of documents follows. -/
def isFinished (fuel : Nat) (cursor : Cursor) : Bool :=
  match fuel with
  | 0 => false
  | fuel + 1 =>
    let next := cursor.skip false
    next.rest.isEmpty || (next.atEnd && isFinished fuel (next.move 3 (next.rest.drop 3) false))

/-- The single document of a text. -/
def read? (text : String) : Option Yaml :=
  let chars := normalizeBreaks text.toList
  let fuel := 4 * chars.length + 8
  let first := Cursor.skip false ⟨chars, 0, 0, true⟩
  if !text.toList.all isAllowed || first.atEnd then
    none
  else do
    let begun := if first.atStart then
        (first.move 3 (first.rest.drop 3) false).skip false
      else first
    let (root, after) ← if begun.isFinal then some (.empty, begun) else blockNode fuel 0 begun
    if isFinished fuel after then some root else none

end Pagewright.Yaml
