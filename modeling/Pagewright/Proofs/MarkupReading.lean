import Pagewright.Proofs.MarkupText
import Pagewright.Proofs.RowLines

set_option autoImplicit false

namespace Pagewright

open Text

namespace Text.Entity

/-- The text that a text with entities stands for. -/
def decode (text : List Char) : String := String.ofList (readMany read text).1

theorem decode_escapeAttribute (value : String) :
    decode (escapeAttribute value).toList = value := by
  have chars : readMany read (value.toList.flatMap encodeAttribute ++ []) = (value.toList, []) :=
    readMany_flatMap (fun c _ => read_encodeAttribute c)
      (fun c _ => ne_nil_of_read read_encodeAttribute c) rfl
  rw [decode, toList_escapeAttribute, ← List.append_nil (List.flatMap _ _), chars,
    String.ofList_toList]

end Text.Entity

namespace Markup

/-- A part of the text of markup: a tag, or one character of a text. -/
inductive Mark where
  | opening (tag : String) (attributes : List (String × String))
  | closing (tag : String)
  | char (c : Char)
deriving DecidableEq, Repr

section Reading

def isNameChar (c : Char) : Bool := c.isAlphanum || c == '-'

/-- The name at the front, which is not empty, and what follows it. -/
def readName (text : List Char) : Option (String × List Char) :=
  let name := text.takeWhile isNameChar
  if name = [] then none else some (String.ofList name, text.dropWhile isNameChar)

def readAttribute (rest : List Char) : Option ((String × String) × List Char) := do
  let rest ← expect " " rest
  let (name, rest) ← readName rest
  let rest ← expect "=\"" rest
  let (value, rest) := upTo '"' rest
  let rest ← expect "\"" rest
  some ((name, Entity.decode value.toList), rest)

def readClosing (rest : List Char) : Option (Mark × List Char) := do
  let (tag, rest) ← readName rest
  let rest ← expect ">" rest
  some (.closing tag, rest)

def readOpening (rest : List Char) : Option (Mark × List Char) := do
  let (tag, rest) ← readName rest
  let (attributes, rest) := readMany readAttribute rest
  let rest ← expect ">" rest
  some (.opening tag attributes, rest)

def readMark : List Char → Option (Mark × List Char)
  | '<' :: '/' :: rest => readClosing rest
  | '<' :: rest => readOpening rest
  | rest => (Entity.read rest).map fun (c, back) => (.char c, back)

/-- An element that is not closed yet, with the nodes before it, the last one first. -/
structure Open where
  tag : String
  attributes : List (String × String)
  before : List Markup

/-- The nodes that were built in the innermost open element, the last one first, and the open
elements, the innermost one first. -/
structure Tree where
  nodes : List Markup
  opened : List Open

/-- A character belongs to the text before it, if there is one. -/
def insertChar (c : Char) : List Markup → List Markup
  | .text value :: before => .text (value.push c) :: before
  | nodes => .text (String.singleton c) :: nodes

/-- Void elements, which a reader has to know by their names. -/
def isVoidTag (tag : String) : Bool := ["input", "meta", "br"].contains tag

/-- Void elements are not left open. A closing tag closes the innermost open element, which has
its name. -/
def Tree.insert (tree : Tree) : Mark → Option Tree
  | .char c => some { tree with nodes := insertChar c tree.nodes }
  | .opening tag attributes =>
    if isVoidTag tag then
      some { tree with nodes := .element tag attributes [] :: tree.nodes }
    else some ⟨[], ⟨tag, attributes, tree.nodes⟩ :: tree.opened⟩
  | .closing tag =>
    match tree.opened with
    | [] => none
    | innermost :: opened =>
      if innermost.tag = tag then
        some ⟨.element tag innermost.attributes tree.nodes.reverse :: innermost.before, opened⟩
      else none

/-- The markup of a text, if every tag is well formed and every element is closed. -/
def read (text : String) : Option (List Markup) := do
  let (marks, rest) := readMany readMark text.toList
  let tree ← marks.foldlM Tree.insert ⟨[], []⟩
  match rest, tree.opened with
  | [], [] => some tree.nodes.reverse
  | _, _ => none

end Reading

section Marks

mutual

/-- What the text of a node is made of. -/
def marks : Markup → List Mark
  | .text value => value.toList.map .char
  | .element tag attributes children =>
    .opening tag attributes ::
      if isVoidTag tag then [] else marksAll children ++ [.closing tag]

def marksAll : List Markup → List Mark
  | [] => []
  | first :: rest => first.marks ++ marksAll rest

end

def Mark.write : Mark → List Char
  | .opening tag attributes => (renderOpening tag attributes).toList
  | .closing tag => (renderClosing tag).toList
  | .char c => Entity.encodeText c

theorem contains_voidTags (tag : String) : voidTags.contains tag = isVoidTag tag := rfl

mutual

theorem toList_render : (markup : Markup) → markup.render.toList = markup.marks.flatMap Mark.write
  | .text value => by
    rw [render, Entity.toList_escapeText, marks, List.flatMap_map]
    rfl
  | .element tag attributes children => by
    rw [render, marks, contains_voidTags, List.flatMap_cons]
    split
    · rw [List.flatMap_nil, List.append_nil]
      rfl
    · rw [String.toList_append, String.toList_append, toList_renderAll children,
        List.flatMap_append, List.flatMap_singleton, List.append_assoc]
      rfl

theorem toList_renderAll : (forest : List Markup) →
    (renderAll forest).toList = (marksAll forest).flatMap Mark.write
  | [] => rfl
  | first :: rest => by
    rw [renderAll, String.toList_append, toList_render first, toList_renderAll rest, marksAll,
      List.flatMap_append]

end

/-- The names in a tag are names. -/
def Mark.Valid : Mark → Prop
  | .opening tag attributes => IsName tag ∧ ∀ entry ∈ attributes, IsName entry.1
  | .closing tag => IsName tag
  | .char _ => True

theorem isNameChar_of_mem {name : String} (isName : IsName name) :
    ∀ c ∈ name.toList, isNameChar c = true := by
  intro c member
  rw [isNameChar, Bool.or_eq_true, beq_iff_eq]
  exact isName.2 c member

theorem readName_append {name : String} (isName : IsName name) {back : List Char}
    (stops : ∀ c ∈ back.head?, isNameChar c = false) :
    readName (name.toList ++ back) = some (name, back) := by
  have filled : name.toList ≠ [] := mt String.toList_eq_nil_iff.mp isName.1
  have run := run_append (isNameChar_of_mem isName) stops
  rw [readName, run.1, run.2, if_neg filled, String.ofList_toList]

theorem readAttribute_append {entry : String × String} (isName : IsName entry.1)
    (back : List Char) :
    readAttribute ((renderAttribute entry).toList ++ back) = some (entry, back) := by
  obtain ⟨name, value⟩ := entry
  let quoted := (Entity.escapeAttribute value).toList ++ ("\"".toList ++ back)
  have named : readName (name.toList ++ ("=\"".toList ++ quoted)) =
      some (name, "=\"".toList ++ quoted) :=
    readName_append isName (by rintro c ⟨⟩; rfl)
  have ended : upTo '"' quoted = (Entity.escapeAttribute value, "\"".toList ++ back) :=
    upTo_append (Entity.quote_not_mem_escapeAttribute value) rfl
  simp only [renderAttribute, String.toList_append, List.append_assoc, readAttribute,
    expect_append, quoted, named, ended, Option.bind_eq_bind, Option.bind_some,
    Entity.decode_escapeAttribute]

/-- What follows the name in an opening tag. -/
def afterName (attributes : List (String × String)) : List Char :=
  (String.join (attributes.map renderAttribute) ++ ">").toList

theorem readMany_attributes {attributes : List (String × String)}
    (names : ∀ entry ∈ attributes, IsName entry.1) (back : List Char) :
    readMany readAttribute (afterName attributes ++ back) = (attributes, ">".toList ++ back) := by
  have filled : ∀ entry ∈ attributes, (renderAttribute entry).toList ≠ [] := by
    intro entry _ empty
    have heads := heads_renderAttribute entry
    rw [Heads, empty] at heads
    cases heads
  rw [afterName, String.toList_append, String.toList_join, List.flatMap_map, List.append_assoc]
  exact readMany_flatMap (fun entry member => readAttribute_append (names entry member)) filled rfl

theorem stops_afterName (attributes : List (String × String)) (back : List Char) :
    ∀ c ∈ (afterName attributes ++ back).head?, isNameChar c = false := by
  intro c first
  have heads : Heads c (String.join (attributes.map renderAttribute) ++ ">" ++
      String.ofList back) := by
    rw [Heads, String.toList_append, String.toList_ofList]
    exact first
  have outside := not_nameChar_of_heads_attributes heads
  simpa [isNameChar] using outside

theorem readClosing_append {tag : String} (isName : IsName tag) (back : List Char) :
    readClosing (tag.toList ++ (">".toList ++ back)) = some (.closing tag, back) := by
  have named : readName (tag.toList ++ (">".toList ++ back)) = some (tag, ">".toList ++ back) :=
    readName_append isName (by rintro c ⟨⟩; rfl)
  simp only [readClosing, named, expect_append, Option.bind_eq_bind, Option.bind_some]

theorem readOpening_append {tag : String} (isName : IsName tag)
    {attributes : List (String × String)} (names : ∀ entry ∈ attributes, IsName entry.1)
    (back : List Char) :
    readOpening (tag.toList ++ (afterName attributes ++ back)) =
      some (.opening tag attributes, back) := by
  have named : readName (tag.toList ++ (afterName attributes ++ back)) =
      some (tag, afterName attributes ++ back) :=
    readName_append isName (stops_afterName attributes back)
  simp only [readOpening, named, readMany_attributes names, expect_append, Option.bind_eq_bind,
    Option.bind_some]

theorem readMark_lessThan {rest : List Char} (noSlash : rest.head? ≠ some '/') :
    readMark ('<' :: rest) = readOpening rest := by
  unfold readMark
  split
  · rename_i slash
    cases slash
    exact (noSlash rfl).elim
  · rename_i tag
    cases tag
    rfl
  · rename_i noTag
    exact (noTag _ rfl).elim

theorem readMark_encodeText (c : Char) (back : List Char) :
    readMark (Entity.encodeText c ++ back) = some (.char c, back) := by
  have noTag : ∀ rest, Entity.encodeText c ++ back ≠ '<' :: rest := by
    intro rest same
    cases written : Entity.encodeText c with
    | nil => exact Entity.ne_nil_of_read Entity.read_encodeText c written
    | cons d others =>
      have member : '<' ∈ Entity.encodeText c := by
        rw [written] at same ⊢
        cases same
        exact .head _
      exact Entity.lessThan_not_mem_encodeText c member
  unfold readMark
  split
  · rename_i slash
    exact (noTag _ slash).elim
  · rename_i tag
    exact (noTag _ tag).elim
  · rw [Entity.read_encodeText]
    rfl

theorem readMark_write {mark : Mark} (valid : mark.Valid) (back : List Char) :
    readMark (mark.write ++ back) = some (mark, back) := by
  cases mark with
  | opening tag attributes =>
    have noSlash : (tag.toList ++ (afterName attributes ++ back)).head? ≠ some '/' := by
      have filled : tag.toList ≠ [] := mt String.toList_eq_nil_iff.mp valid.1.1
      rw [List.head?_append_of_ne_nil _ filled]
      intro first
      exact valid.1.not_mem (by decide) (by decide) (List.mem_of_head? first)
    have written : (Mark.opening tag attributes).write ++ back =
        '<' :: (tag.toList ++ (afterName attributes ++ back)) := by
      simp [Mark.write, renderOpening, afterName]
    rw [written, readMark_lessThan noSlash, readOpening_append valid.1 valid.2]
  | closing tag =>
    have written : (Mark.closing tag).write ++ back =
        '<' :: '/' :: (tag.toList ++ (">".toList ++ back)) := by
      simp [Mark.write, renderClosing]
    rw [written]
    exact readClosing_append valid back
  | char c => exact readMark_encodeText c back

theorem write_ne_nil (mark : Mark) : mark.write ≠ [] := by
  cases mark with
  | opening tag attributes => simp [Mark.write, renderOpening]
  | closing tag => simp [Mark.write, renderClosing]
  | char c => exact Entity.ne_nil_of_read Entity.read_encodeText c

theorem readMany_marks {marks : List Mark} (valid : ∀ mark ∈ marks, mark.Valid) :
    readMany readMark (marks.flatMap Mark.write) = (marks, []) := by
  rw [← List.append_nil (List.flatMap _ _)]
  exact readMany_flatMap (fun mark member => readMark_write (valid mark member))
    (fun mark _ => write_ne_nil mark) rfl

end Marks

def isText : Markup → Bool
  | .text _ => true
  | .element _ _ _ => false

mutual

/-- Markup that its text can be told apart from: tags and attributes have names, void elements are
empty, and no text is empty or stands next to another. -/
def Readable : Markup → Prop
  | .text value => value ≠ ""
  | .element tag attributes children =>
    IsName tag ∧ (∀ entry ∈ attributes, IsName entry.1) ∧
      (isVoidTag tag = true → children = []) ∧ ReadableAll children

def ReadableAll : List Markup → Prop
  | [] => True
  | first :: rest =>
    first.Readable ∧ (first.isText = true → ∀ next ∈ rest.head?, next.isText = false) ∧
      ReadableAll rest

end

mutual

instance decidableReadable : (markup : Markup) → Decidable markup.Readable
  | .text value => inferInstanceAs (Decidable (value ≠ ""))
  | .element tag attributes children =>
    have := decidableReadableAll children
    inferInstanceAs (Decidable (IsName tag ∧ (∀ entry ∈ attributes, IsName entry.1) ∧
      (isVoidTag tag = true → children = []) ∧ ReadableAll children))

instance decidableReadableAll : (forest : List Markup) → Decidable (ReadableAll forest)
  | [] => inferInstanceAs (Decidable True)
  | first :: rest =>
    have := decidableReadable first
    have := decidableReadableAll rest
    inferInstanceAs (Decidable (first.Readable ∧
      (first.isText = true → ∀ next ∈ rest.head?, next.isText = false) ∧ ReadableAll rest))

end

mutual

theorem valid_of_mem_marks : (markup : Markup) → markup.Readable →
    ∀ mark ∈ markup.marks, mark.Valid
  | .text value, _, mark, member => by
    obtain ⟨c, -, rfl⟩ := List.mem_map.mp member
    trivial
  | .element tag attributes children, ⟨isName, names, _, content⟩, mark, member => by
    rw [marks, List.mem_cons] at member
    rcases member with rfl | member
    · exact ⟨isName, names⟩
    · split at member
      · cases member
      · rcases List.mem_append.mp member with inside | closing
        · exact valid_of_mem_marksAll children content mark inside
        · cases List.mem_singleton.mp closing
          exact isName

theorem valid_of_mem_marksAll : (forest : List Markup) → ReadableAll forest →
    ∀ mark ∈ marksAll forest, mark.Valid
  | [], _, _, member => nomatch member
  | first :: rest, ⟨readable, _, others⟩, mark, member => by
    rcases List.mem_append.mp member with inside | behind
    · exact valid_of_mem_marks first readable mark inside
    · exact valid_of_mem_marksAll rest others mark behind

end

theorem foldlM_chars (chars : List Char) (value : String) (before : List Markup)
    (opened : List Open) :
    (chars.map Mark.char).foldlM Tree.insert ⟨.text value :: before, opened⟩ =
      some ⟨.text (value ++ String.ofList chars) :: before, opened⟩ := by
  induction chars generalizing value with
  | nil => rw [String.ofList_nil, String.append_empty]; rfl
  | cons c rest ih =>
    have joined : value.push c ++ String.ofList rest = value ++ String.ofList (c :: rest) := by
      rw [← String.toList_inj]
      simp
    rw [List.map_cons, List.foldlM_cons]
    exact (ih (value.push c)).trans (by rw [joined])

theorem foldlM_text {value : String} (filled : value ≠ "") {tree : Tree}
    (apart : ∀ node ∈ tree.nodes.head?, node.isText = false) :
    (Markup.text value).marks.foldlM Tree.insert tree =
      some { tree with nodes := .text value :: tree.nodes } := by
  cases chars : value.toList with
  | nil => exact (filled (String.toList_eq_nil_iff.mp chars)).elim
  | cons c rest =>
    have begins : insertChar c tree.nodes = .text (String.singleton c) :: tree.nodes := by
      unfold insertChar
      split
      · rename_i nodes
        rw [nodes] at apart
        cases apart _ rfl
      · rfl
    have whole : String.singleton c ++ String.ofList rest = value := by
      rw [← String.toList_inj, chars]
      simp
    rw [marks, chars, List.map_cons, List.foldlM_cons, Tree.insert, begins]
    exact (foldlM_chars rest _ _ _).trans (by rw [whole])

mutual

/-- The marks of a node put it behind the nodes before it, if no text is continued. -/
theorem foldlM_marks : (markup : Markup) → markup.Readable → (tree : Tree) →
    (markup.isText = true → ∀ node ∈ tree.nodes.head?, node.isText = false) →
    markup.marks.foldlM Tree.insert tree = some { tree with nodes := markup :: tree.nodes }
  | .text _, filled, _, apart => foldlM_text filled (apart rfl)
  | .element tag attributes children, ⟨_, _, hollow, content⟩, tree, _ => by
    rw [marks, List.foldlM_cons, Tree.insert]
    by_cases void : isVoidTag tag = true
    · rw [if_pos void, if_pos void, hollow void]
      rfl
    · have inside := foldlM_marksAll children content ⟨[], ⟨tag, attributes, tree.nodes⟩ ::
        tree.opened⟩ (fun _ _ _ node member => nomatch member)
      rw [List.append_nil] at inside
      rw [if_neg void, if_neg void, Option.bind_eq_bind, Option.bind_some, List.foldlM_append,
        inside]
      simp [Tree.insert]

theorem foldlM_marksAll : (forest : List Markup) → ReadableAll forest → (tree : Tree) →
    (∀ first ∈ forest.head?, first.isText = true →
      ∀ node ∈ tree.nodes.head?, node.isText = false) →
    (marksAll forest).foldlM Tree.insert tree =
      some { tree with nodes := forest.reverse ++ tree.nodes }
  | [], _, _, _ => rfl
  | first :: rest, ⟨readable, apart, others⟩, tree, before => by
    have next : ∀ node ∈ rest.head?, node.isText = true →
        ∀ last ∈ (first :: tree.nodes).head?, last.isText = false := by
      rintro node member isText _ ⟨⟩
      by_contra continued
      have noText := apart (by simpa using continued) node member
      rw [isText] at noText
      cases noText
    rw [marksAll, List.foldlM_append, foldlM_marks first readable tree (before first rfl),
      Option.bind_eq_bind, Option.bind_some, foldlM_marksAll rest others _ next,
      List.reverse_cons, List.append_assoc]
    rfl

end

/-- Reading undoes rendering, whatever the texts and the values of attributes say. -/
theorem read_renderAll {forest : List Markup} (readable : ReadableAll forest) :
    read (renderAll forest) = some forest := by
  have cut : readMany readMark (renderAll forest).toList = (marksAll forest, []) := by
    rw [toList_renderAll]
    exact readMany_marks (valid_of_mem_marksAll forest readable)
  have built := foldlM_marksAll forest readable ⟨[], []⟩ (fun _ _ _ _ member => nomatch member)
  rw [List.append_nil] at built
  simp only [read, cut, built, Option.bind_eq_bind, Option.bind_some, List.reverse_reverse]

/-- A text with tags, quotes and entities in it, between elements. -/
def quotingMarkup : List Markup :=
  [.text "\"é\" & ",
    .element "div" [("class", "a\"b'<c>"), ("data-list", "&quot;")]
      [.text "</div>&lt;", .element "br" [] [], .text "&amp;lt;"],
    .element "p" [("title", "")] []]

theorem read_quotingMarkup :
    ReadableAll quotingMarkup ∧ read (renderAll quotingMarkup) = some quotingMarkup := by
  have readable : ReadableAll quotingMarkup := by decide +kernel
  exact ⟨readable, read_renderAll readable⟩

/-- Entities are read once. -/
example : read "<p>&amp;lt;<br></p>" =
    some [.element "p" [] [.text "&lt;", .element "br" [] []]] := by cbv

example : read "<p><br></p></p>" = none := by cbv

end Markup

end Pagewright
