import Pagewright.Proofs.MarkupText
import Pagewright.Proofs.ScriptLines

set_option autoImplicit false

namespace Pagewright

open Text

/-- What ends the name of a tag. -/
def endsTagName (c : Char) : Bool := c == ' ' || c == '>'

/-- The names of the tags in a text, in order: every `<` begins a tag. The name of a closing tag
begins with a slash. -/
def tagNames : List Char → List String
  | [] => []
  | c :: rest =>
    if c = '<' then String.ofList (rest.takeWhile fun d => !endsTagName d) :: tagNames rest
    else tagNames rest

theorem tagNames_cons_of_ne {c : Char} (noTag : c ≠ '<') (rest : List Char) :
    tagNames (c :: rest) = tagNames rest := by
  rw [tagNames, if_neg noTag]

theorem length_tagNames (text : List Char) : (tagNames text).length = text.count '<' := by
  induction text with
  | nil => rfl
  | cons c rest ih =>
    by_cases tag : c = '<'
    · subst tag
      rw [tagNames, if_pos rfl, List.length_cons, ih, List.count_cons_self]
    · rw [tagNames_cons_of_ne tag, ih, List.count_cons_of_ne tag]

theorem tagNames_append_of_not_mem {front : List Char} (noTag : '<' ∉ front) (back : List Char) :
    tagNames (front ++ back) = tagNames back := by
  induction front with
  | nil => rfl
  | cons c rest ih =>
    obtain ⟨first, others⟩ := not_or.mp (fun either => noTag (List.mem_cons.mpr either))
    rw [List.cons_append, tagNames_cons_of_ne (Ne.symm first), ih others]

/-- The text has these tags, whatever follows it. -/
def HasTags (text : String) (names : List String) : Prop :=
  ∀ back, tagNames (text.toList ++ back) = names ++ tagNames back

theorem HasTags.tagNames_eq {text : String} {names : List String} (has : HasTags text names) :
    tagNames text.toList = names := by
  have whole := has []
  simpa [tagNames] using whole

theorem HasTags.append {first second : String} {names more : List String}
    (left : HasTags first names) (right : HasTags second more) :
    HasTags (first ++ second) (names ++ more) := by
  intro back
  rw [String.toList_append, List.append_assoc, left, right, List.append_assoc]

theorem hasTags_of_not_mem {text : String} (noTag : '<' ∉ text.toList) : HasTags text [] :=
  tagNames_append_of_not_mem noTag

/-- A single tag: its name, and up to the end nothing that begins another. -/
theorem hasTags_single {name middle : String} (noTag : '<' ∉ (name ++ middle).toList)
    (plain : ∀ c ∈ name.toList, endsTagName c = false)
    (ends : ∀ c, middle.toList.head? = some c → endsTagName c = true) :
    HasTags ("<" ++ name ++ middle ++ ">") [name] := by
  intro back
  have spelled : ("<" ++ name ++ middle ++ ">").toList ++ back =
      '<' :: (name.toList ++ (middle.toList ++ '>' :: back)) := by
    simp
  have stopped : (middle.toList ++ '>' :: back).takeWhile (fun d => !endsTagName d) = [] := by
    cases chars : middle.toList with
    | nil => rfl
    | cons c rest =>
      rw [List.cons_append, List.takeWhile_cons_of_neg]
      simp [ends c (by rw [chars]; rfl)]
  have named : (name.toList ++ (middle.toList ++ '>' :: back)).takeWhile
      (fun d => !endsTagName d) = name.toList := by
    rw [List.takeWhile_append_of_pos (by simpa using plain), stopped, List.append_nil]
  have behind : tagNames (name.toList ++ (middle.toList ++ '>' :: back)) = tagNames back := by
    rw [← List.append_assoc, ← String.toList_append, tagNames_append_of_not_mem noTag]
    exact tagNames_cons_of_ne (by decide) back
  rw [spelled, tagNames, if_pos rfl, named, String.ofList_toList, behind]
  rfl

/-- Whether every name of a tag ends inside the text. -/
def endsTagNames : List Char → Bool
  | [] => true
  | c :: rest => (c != '<' || rest.any endsTagName) && endsTagNames rest

theorem takeWhile_append_cons {before : List Char} {c : Char} (isEnd : endsTagName c = true)
    (after : List Char) :
    (before ++ c :: after).takeWhile (fun d => !endsTagName d) =
      before.takeWhile fun d => !endsTagName d := by
  induction before with
  | nil => simp [isEnd]
  | cons d before ih =>
    rw [List.cons_append, List.takeWhile_cons, List.takeWhile_cons, ih]

/-- For fixed texts, which reduce to their characters. -/
theorem hasTags_ofList {text : List Char} {names : List String} (ended : endsTagNames text = true)
    (found : tagNames text = names) : HasTags (String.ofList text) names := by
  intro back
  subst found
  rw [String.toList_ofList]
  induction text with
  | nil => rfl
  | cons c rest ih =>
    obtain ⟨first, others⟩ := Bool.and_eq_true_iff.mp ended
    by_cases tag : c = '<'
    · subst tag
      have stops : rest.any endsTagName = true := by simpa using first
      have name : (rest ++ back).takeWhile (fun d => !endsTagName d) =
          rest.takeWhile (fun d => !endsTagName d) := by
        obtain ⟨d, member, isEnd⟩ := List.any_eq_true.mp stops
        obtain ⟨before, after, rfl⟩ := List.append_of_mem member
        rw [List.append_assoc, List.cons_append, takeWhile_append_cons isEnd,
          takeWhile_append_cons isEnd]
      rw [List.cons_append, tagNames, if_pos rfl, name, ih others, tagNames, if_pos rfl]
      rfl
    · rw [List.cons_append, tagNames_cons_of_ne tag, tagNames_cons_of_ne tag, ih others]

namespace Markup

mutual

/-- The names of the tags of a tree, in document order. -/
def tags : Markup → List String
  | .text _ => []
  | .element tag _ children =>
    if voidTags.contains tag then [tag] else [tag] ++ tagsAll children ++ ["/" ++ tag]

def tagsAll : List Markup → List String
  | [] => []
  | first :: rest => first.tags ++ tagsAll rest

end

theorem endsTagName_of_isName {name : String} (isName : IsName name) :
    ∀ c ∈ name.toList, endsTagName c = false := by
  intro c member
  have notBlank : c ≠ ' ' := by
    rintro rfl
    exact isName.not_mem (by decide) (by decide) member
  have notEnd : c ≠ '>' := by
    rintro rfl
    exact isName.not_mem (by decide) (by decide) member
  simp [endsTagName, notBlank, notEnd]

theorem lessThan_not_mem_renderAttribute {entry : String × String} (isName : IsName entry.1) :
    '<' ∉ (renderAttribute entry).toList := by
  simp [renderAttribute, isName.not_mem, Entity.lessThan_not_mem_escapeAttribute]

theorem hasTags_renderOpening {tag : String} {attributes : List (String × String)}
    (isName : IsName tag) (names : ∀ entry ∈ attributes, IsName entry.1) :
    HasTags (renderOpening tag attributes) [tag] := by
  apply hasTags_single
  · rw [String.toList_append, List.mem_append, not_or]
    refine ⟨isName.not_mem (by decide) (by decide), ?_⟩
    rw [String.toList_join, List.mem_flatMap]
    rintro ⟨text, written, member⟩
    obtain ⟨entry, listed, rfl⟩ := List.mem_map.mp written
    exact lessThan_not_mem_renderAttribute (names entry listed) member
  · exact endsTagName_of_isName isName
  · cases attributes with
    | nil => simp
    | cons entry rest => simp [renderAttribute, endsTagName]

theorem hasTags_renderClosing {tag : String} (isName : IsName tag) :
    HasTags (renderClosing tag) ["/" ++ tag] := by
  have shape : renderClosing tag = "<" ++ ("/" ++ tag) ++ "" ++ ">" := by
    simp [renderClosing, ← String.toList_inj]
  rw [shape]
  apply hasTags_single
  · simp [isName.not_mem]
  · rw [String.toList_append, List.forall_mem_append]
    exact ⟨by simp [endsTagName], endsTagName_of_isName isName⟩
  · simp

theorem hasTags_element {tag : String} {attributes : List (String × String)}
    {children : List Markup} {inner : List String} (notVoid : ¬ voidTags.contains tag = true)
    (isName : IsName tag) (names : ∀ entry ∈ attributes, IsName entry.1)
    (within : HasTags (renderAll children) inner) :
    HasTags (Markup.element tag attributes children).render ([tag] ++ inner ++ ["/" ++ tag]) := by
  rw [render, if_neg notVoid]
  exact ((hasTags_renderOpening isName names).append within).append (hasTags_renderClosing isName)

theorem hasTags_renderAll_text (value : String) : HasTags (renderAll [.text value]) [] := by
  rw [renderAll, render, renderAll, String.append_empty]
  exact hasTags_of_not_mem (Entity.lessThan_not_mem_escapeText value)

mutual

theorem hasTags_render : (markup : Markup) → markup.Proper → HasTags markup.render markup.tags
  | .text _, proper => proper.elim
  | .element tag attributes children, ⟨body, names, content⟩ => by
    have isName := isName_of_mem_bodyTags tag body
    rw [tags]
    by_cases void : voidTags.contains tag = true
    · rw [render, if_pos void, if_pos void]
      exact hasTags_renderOpening isName names
    · rw [if_neg void] at content ⊢
      apply hasTags_element void isName names
      by_cases text : textTags.contains tag = true
      · rw [if_pos text] at content
        obtain ⟨value, rfl⟩ := content
        exact hasTags_renderAll_text value
      · rw [if_neg text] at content
        exact hasTags_renderAll children content

theorem hasTags_renderAll : (forest : List Markup) → ProperAll forest →
    HasTags (renderAll forest) (tagsAll forest)
  | [], _ => fun _ => by simp [renderAll, tagsAll]
  | first :: rest, ⟨proper, others⟩ =>
    (hasTags_render first proper).append (hasTags_renderAll rest others)

end

/-- An element has two tags, a void element one. -/
def tagCount (elements : List Markup) : Nat :=
  2 * (elements.countP fun element => !element.isVoid) + elements.countP isVoid

theorem tagCount_cons (element : Markup) (rest : List Markup) :
    tagCount (element :: rest) = (if element.isVoid then 1 else 2) + tagCount rest := by
  simp only [tagCount, List.countP_cons]
  cases element.isVoid
  · simp
    omega
  · simp
    omega

theorem tagCount_append (first second : List Markup) :
    tagCount (first ++ second) = tagCount first + tagCount second := by
  simp only [tagCount, List.countP_append]
  omega

mutual

theorem length_tags : (markup : Markup) → markup.Proper →
    markup.tags.length = tagCount markup.elements
  | .text _, proper => proper.elim
  | .element tag attributes children, ⟨_, _, content⟩ => by
    rw [tags, elements, tagCount_cons, isVoid]
    by_cases void : voidTags.contains tag = true
    · rw [if_pos void] at content
      subst content
      rw [if_pos void, if_pos void]
      rfl
    · rw [if_neg void] at content
      have inner : (tagsAll children).length = tagCount (elementsAll children) := by
        by_cases text : textTags.contains tag = true
        · rw [if_pos text] at content
          obtain ⟨value, rfl⟩ := content
          rfl
        · rw [if_neg text] at content
          exact length_tagsAll children content
      rw [if_neg void, if_neg void, List.length_append, List.length_append, inner,
        List.length_singleton, List.length_singleton]
      omega

theorem length_tagsAll : (forest : List Markup) → ProperAll forest →
    (tagsAll forest).length = tagCount (elementsAll forest)
  | [], _ => rfl
  | first :: rest, ⟨proper, others⟩ => by
    rw [tagsAll, elementsAll, List.length_append, tagCount_append, length_tags first proper,
      length_tagsAll rest others]

end

/-- A tag that no element of a program has, neither opening nor closing. -/
def Foreign (name : String) : Prop := ∀ tag ∈ bodyTags, name ≠ tag ∧ name ≠ "/" ++ tag

instance (name : String) : Decidable (Foreign name) :=
  inferInstanceAs (Decidable (∀ tag ∈ bodyTags, name ≠ tag ∧ name ≠ "/" ++ tag))

mutual

theorem foreign_not_mem_tags {name : String} (foreign : Foreign name) : (markup : Markup) →
    markup.Proper → name ∉ markup.tags
  | .text _, proper => proper.elim
  | .element tag attributes children, ⟨body, _, content⟩ => by
    obtain ⟨notOpening, notClosing⟩ := foreign tag body
    rw [tags]
    by_cases void : voidTags.contains tag = true
    · rw [if_pos void]
      simpa using notOpening
    · rw [if_neg void] at content ⊢
      have inner : name ∉ tagsAll children := by
        by_cases text : textTags.contains tag = true
        · rw [if_pos text] at content
          obtain ⟨value, rfl⟩ := content
          exact List.not_mem_nil
        · rw [if_neg text] at content
          exact foreign_not_mem_tagsAll foreign children content
      simp [notOpening, notClosing, inner]

theorem foreign_not_mem_tagsAll {name : String} (foreign : Foreign name) :
    (forest : List Markup) → ProperAll forest → name ∉ tagsAll forest
  | [], _ => List.not_mem_nil
  | first :: rest, ⟨proper, others⟩ => by
    rw [tagsAll, List.mem_append, not_or]
    exact ⟨foreign_not_mem_tags foreign first proper, foreign_not_mem_tagsAll foreign rest others⟩

end

end Markup

theorem lessThan_not_mem_intercalate {separator : String} {texts : List String}
    (between : '<' ∉ separator.toList) (each : ∀ text ∈ texts, '<' ∉ text.toList) :
    '<' ∉ (separator.intercalate texts).toList := by
  have empty : '<' ∉ "".toList := List.not_mem_nil
  refine intercalate_of_forall empty (fun {first second} noFirst noSecond => ?_) between each
  rw [String.toList_append, List.mem_append, not_or]
  exact ⟨noFirst, noSecond⟩

namespace Rule

theorem lessThan_not_mem_sanitize (value : String) : '<' ∉ (sanitize value).toList := by
  simp [sanitize, isDelimiter]

/-- A rule opens no tag if its selector and its properties do not; its values cannot. -/
theorem lessThan_not_mem_render {rule : Rule} (selector : '<' ∉ rule.selector.toList)
    (properties : ∀ property ∈ rule.declarations.map Prod.fst, '<' ∉ property.toList) :
    '<' ∉ rule.render.toList := by
  have declarations :
      '<' ∉ (";".intercalate (rule.declarations.map renderDeclaration)).toList := by
    apply lessThan_not_mem_intercalate (by decide)
    intro text written
    obtain ⟨declaration, listed, rfl⟩ := List.mem_map.mp written
    have property := properties declaration.1 (List.mem_map_of_mem listed)
    simp [renderDeclaration, property, lessThan_not_mem_sanitize]
  simp only [render, String.toList_append, List.mem_append, not_or]
  exact ⟨⟨⟨selector, by decide⟩, declarations⟩, by decide⟩

end Rule

/-- The selectors of a stylesheet and the properties under each. -/
def Style.outline (rules : List Rule) : List (String × List String) :=
  rules.map fun rule => (rule.selector, rule.declarations.map Prod.fst)

/-- No setting changes what a stylesheet sets, only to which values. -/
theorem Style.outline_rules (style : Style) :
    outline style.rules =
      [("body", ["font-family", "padding"]),
        (".col", ["display", "flex-direction", "gap"]),
        (".row", ["display", "flex-direction", "gap"]),
        (".item", ["display", "align-items", "gap"]),
        ("button", ["padding"])] := rfl

theorem Style.lessThan_not_mem_rules (style : Style) :
    '<' ∉ (Rule.renderAll style.rules).toList := by
  have fixed : ∀ entry ∈ outline style.rules,
      '<' ∉ entry.1.toList ∧ ∀ property ∈ entry.2, '<' ∉ property.toList := by
    rw [outline_rules]
    decide
  rw [Rule.renderAll, String.toList_join, List.mem_flatMap]
  rintro ⟨text, written, member⟩
  obtain ⟨rule, listed, rfl⟩ := List.mem_map.mp written
  obtain ⟨selector, properties⟩ := fixed _ (List.mem_map_of_mem listed)
  exact Rule.lessThan_not_mem_render selector properties member

/-- The tags before the markup of a document. -/
def headTags : List String :=
  ["!doctype", "html", "head", "meta", "title", "/title", "style", "/style", "/head", "body"]

/-- The tags behind the markup of a document. -/
def scriptTags : List String :=
  ["script", "/script", "script", "/script", "script", "/script", "/body", "/html"]

open Markup in
theorem Page.hasTags_render {page : Page} (style : '<' ∉ (Rule.renderAll page.style).toList)
    (proper : ProperAll page.markup) (bootstrap : '<' ∉ page.bootstrap.render.toList)
    (behavior : '<' ∉ page.behavior.render.toList) :
    HasTags page.render (headTags ++ tagsAll page.markup ++ scriptTags) := by
  have title : HasTags (Markup.element "title" [] [.text page.title]).render
      ["title", "/title"] :=
    hasTags_element (by decide) (by decide) (List.forall_mem_nil _)
      (hasTags_renderAll_text page.title)
  have source : HasTags
      (Markup.element "script" [("src", page.bootstrap.store.scriptUrl)] []).render
      ["script", "/script"] :=
    hasTags_element (by decide) (by decide)
      (List.forall_mem_singleton.mpr (by decide : IsName "src")) (hasTags_renderAll [] trivial)
  have doctype : HasTags "<!doctype html><html><head><meta charset=\"utf-8\">"
      ["!doctype", "html", "head", "meta"] := hasTags_ofList rfl rfl
  have styleOpening : HasTags "<style>\n" ["style"] := hasTags_ofList rfl rfl
  have bodyOpening : HasTags "</style></head><body>" ["/style", "/head", "body"] :=
    hasTags_ofList rfl rfl
  have lineFeed : HasTags "\n" [] := hasTags_ofList rfl rfl
  have scriptOpening : HasTags "\n<script>\n" ["script"] := hasTags_ofList rfl rfl
  have scriptBetween : HasTags "</script>\n<script>\n" ["/script", "script"] :=
    hasTags_ofList rfl rfl
  have closing : HasTags "</script></body></html>\n" ["/script", "/body", "/html"] :=
    hasTags_ofList rfl rfl
  have head := (((doctype.append title).append styleOpening).append
    (hasTags_of_not_mem style)).append bodyOpening
  have body := (head.append (hasTags_renderAll page.markup proper)).append lineFeed
  have document : HasTags page.render _ := (((((body.append source).append scriptOpening).append
    (hasTags_of_not_mem bootstrap)).append scriptBetween).append
    (hasTags_of_not_mem behavior)).append closing
  simpa [headTags, scriptTags] using document

/-- No string of a program or of its settings opens or closes a tag: the scripts and the stylesheet
hold no `<`, and the document has the tags of its frame and of its markup, in this order. So it has
three scripts and one stylesheet. -/
theorem compile_tags {settings : Settings} {source : String} {page : Page}
    (success : compile settings source = .ok page) :
    '<' ∉ (Rule.renderAll page.style).toList ∧
      '<' ∉ page.bootstrap.render.toList ∧
      '<' ∉ page.behavior.render.toList ∧
      page.render.toList.count '<' =
        18 + 2 * ((Markup.elementsAll page.markup).countP fun element => !element.isVoid) +
          (Markup.elementsAll page.markup).countP Markup.isVoid ∧
      tagNames page.render.toList = headTags ++ Markup.tagsAll page.markup ++ scriptTags ∧
      (tagNames page.render.toList).count "script" = 3 ∧
      (tagNames page.render.toList).count "/script" = 3 ∧
      (tagNames page.render.toList).count "style" = 1 ∧
      (tagNames page.render.toList).count "/style" = 1 := by
  obtain ⟨nodes, -, generated⟩ := (compile_eq_ok_iff settings source page).mp success
  have style : '<' ∉ (Rule.renderAll page.style).toList := by
    obtain ⟨-, -, rfl⟩ := (generate_eq_ok_iff_livePage settings nodes page).mp generated
    exact Style.lessThan_not_mem_rules settings.style
  have bootstrap : '<' ∉ page.bootstrap.render.toList :=
    lessThan_not_mem_scriptText (Bootstrap.inline_lines (generate_tables_identifiers generated))
  have behavior : '<' ∉ page.behavior.render.toList :=
    lessThan_not_mem_scriptText (generate_wellNamed generated).inline_lines
  have proper := generate_properAll generated
  have names := (Page.hasTags_render style proper bootstrap behavior).tagNames_eq
  have count : ∀ name, Markup.Foreign name →
      (tagNames page.render.toList).count name = (headTags ++ scriptTags).count name := by
    intro name foreign
    have absent := List.count_eq_zero.mpr (Markup.foreign_not_mem_tagsAll foreign _ proper)
    rw [names, List.count_append, List.count_append, List.count_append, absent, Nat.add_zero]
  refine ⟨style, bootstrap, behavior, ?_, names, ?_, ?_, ?_, ?_⟩
  · rw [← length_tagNames, names, List.length_append, List.length_append,
      Markup.length_tagsAll _ proper, Markup.tagCount, headTags, scriptTags]
    simp only [List.length_cons, List.length_nil]
    omega
  · rw [count "script" (by decide)]
    decide
  · rw [count "/script" (by decide)]
    decide
  · rw [count "style" (by decide)]
    decide
  · rw [count "/style" (by decide)]
    decide

/-- Settings and a program with tags in every string. -/
def taggedSettings : Settings where
  updatePlaceholder := "</script>"
  store := { scriptUrl := "\"><script>", wasmBase := "</script><script>" }
  style := { fontFamily := "x\x7d</style><script>" }

def taggedProgram : String :=
  "app \"</title><script>\" table t \x7b <f> \x7d fn go \x7b update t insert t <id> \x7d " ++
    "ui \x7b text \"<b>&\" input <i> <id> button \"</button>\" go " ++
    "list t \x7b item \x7b text <f> \x7d \x7d \x7d"

theorem compile_taggedProgram : ∃ page,
    compile taggedSettings taggedProgram = .ok page ∧
      '<' ∉ page.behavior.render.toList ∧
      page.render.toList.count '<' = 25 ∧
      (tagNames page.render.toList).count "script" = 3 ∧
      (tagNames page.render.toList).count "style" = 1 := by
  obtain ⟨page, success, elements⟩ := exists_page_of_any (by decide +kernel :
    (compile taggedSettings taggedProgram).toOption.any (fun page =>
      2 * ((Markup.elementsAll page.markup).countP fun element => !element.isVoid) +
        (Markup.elementsAll page.markup).countP Markup.isVoid == 7) = true)
  have elementTags := beq_iff_eq.mp elements
  obtain ⟨-, -, behavior, count, -, scripts, -, styles, -⟩ := compile_tags success
  exact ⟨page, success, behavior, by omega, scripts, styles⟩

end Pagewright
