import Pagewright.Proofs.Delimiting
import Pagewright.Proofs.Elements

set_option autoImplicit false

namespace Pagewright

open Text

namespace Text.Entity

/-- The first character that a text with entities stands for, and what follows. -/
def read : List Char → Option (Char × List Char)
  | '&' :: 'a' :: 'm' :: 'p' :: ';' :: rest => some ('&', rest)
  | '&' :: 'l' :: 't' :: ';' :: rest => some ('<', rest)
  | '&' :: 'g' :: 't' :: ';' :: rest => some ('>', rest)
  | '&' :: 'q' :: 'u' :: 'o' :: 't' :: ';' :: rest => some ('"', rest)
  | '&' :: '#' :: '3' :: '9' :: ';' :: rest => some ('\'', rest)
  | c :: rest => some (c, rest)
  | [] => none

theorem read_plain {c : Char} (noEntity : c ≠ '&') (rest : List Char) :
    read (c :: rest) = some (c, rest) := by
  unfold read
  split <;> simp_all

theorem read_encodeText (c : Char) (rest : List Char) :
    read (encodeText c ++ rest) = some (c, rest) := by
  unfold encodeText
  split
  · rfl
  · rfl
  · rfl
  · rename_i noEntity _ _
    exact read_plain noEntity rest

theorem read_encodeAttribute (c : Char) (rest : List Char) :
    read (encodeAttribute c ++ rest) = some (c, rest) := by
  unfold encodeAttribute
  split
  · rfl
  · rfl
  · exact read_encodeText c rest

theorem ne_nil_of_read {encode : Char → List Char}
    (reads : ∀ c rest, read (encode c ++ rest) = some (c, rest)) (c : Char) : encode c ≠ [] := by
  intro empty
  have impossible := reads c []
  rw [empty] at impossible
  cases impossible

/-- A text whose characters are read back is determined by what is written for it. -/
theorem flatMap_inj_of_read {encode : Char → List Char}
    (reads : ∀ c rest, read (encode c ++ rest) = some (c, rest)) {first second : String}
    (same : first.toList.flatMap encode = second.toList.flatMap encode) : first = second := by
  have delimiting : SelfDelimiting (fun _ => True) encode := .of_read fun c rest _ => reads c rest
  exact String.toList_inj.mp (delimiting.flatMap_injective (fun c _ => ne_nil_of_read reads c)
    (fun _ _ => trivial) (fun _ _ => trivial) same)

theorem escapeText_inj {first second : String} (same : escapeText first = escapeText second) :
    first = second := by
  apply flatMap_inj_of_read read_encodeText
  rw [← toList_escapeText, ← toList_escapeText, same]

theorem escapeAttribute_inj {first second : String}
    (same : escapeAttribute first = escapeAttribute second) : first = second := by
  apply flatMap_inj_of_read read_encodeAttribute
  rw [← toList_escapeAttribute, ← toList_escapeAttribute, same]

theorem lessThan_not_mem_encodeText (c : Char) : '<' ∉ encodeText c := by
  unfold encodeText
  split
  · decide
  · decide
  · decide
  · rename_i noTag _
    simpa using Ne.symm noTag

theorem lessThan_not_mem_encodeAttribute (c : Char) : '<' ∉ encodeAttribute c := by
  unfold encodeAttribute
  split
  · decide
  · decide
  · exact lessThan_not_mem_encodeText c

theorem quote_not_mem_encodeAttribute (c : Char) : '"' ∉ encodeAttribute c := by
  unfold encodeAttribute
  split
  · decide
  · decide
  · rename_i noQuote _
    unfold encodeText
    split
    · decide
    · decide
    · decide
    · simpa using Ne.symm noQuote

theorem lessThan_not_mem_escapeText (value : String) : '<' ∉ (escapeText value).toList := by
  rw [toList_escapeText, List.mem_flatMap]
  rintro ⟨c, -, member⟩
  exact lessThan_not_mem_encodeText c member

theorem lessThan_not_mem_escapeAttribute (value : String) :
    '<' ∉ (escapeAttribute value).toList := by
  rw [toList_escapeAttribute, List.mem_flatMap]
  rintro ⟨c, -, member⟩
  exact lessThan_not_mem_encodeAttribute c member

theorem quote_not_mem_escapeAttribute (value : String) : '"' ∉ (escapeAttribute value).toList := by
  rw [toList_escapeAttribute, List.mem_flatMap]
  rintro ⟨c, -, member⟩
  exact quote_not_mem_encodeAttribute c member

end Text.Entity

namespace Markup

theorem heads_renderAttribute (entry : String × String) : Heads ' ' (renderAttribute entry) := by
  simp only [renderAttribute, String.append_assoc]
  exact (heads_ofList rfl : Heads ' ' " ").append _

theorem selfDelimiting_renderAttribute :
    SelfDelimiting (fun entry : String × String => IsName entry.1) renderAttribute := by
  rintro ⟨name, value⟩ ⟨otherName, otherValue⟩ after behind isName isOtherName same
  simp only [renderAttribute, String.append_assoc, String.append_right_inj] at same
  have equals : Heads '=' "=\"" := heads_ofList rfl
  have quote : Heads '"' "\"" := heads_ofList rfl
  obtain ⟨rfl, values⟩ := append_inj_of_mark (isName.not_mem (by decide) (by decide))
    (isOtherName.not_mem (by decide) (by decide)) (equals.append _) (equals.append _) same
  rw [String.append_right_inj] at values
  obtain ⟨escaped, rests⟩ := append_inj_of_mark (Entity.quote_not_mem_escapeAttribute value)
    (Entity.quote_not_mem_escapeAttribute otherValue) (quote.append _) (quote.append _) values
  rw [Entity.escapeAttribute_inj escaped]
  exact ⟨rfl, (String.append_right_inj _).mp rests⟩

/-- The attributes of an opening tag, up to its end. -/
theorem selfDelimiting_attributes :
    SelfDelimiting (fun attributes => ∀ entry ∈ attributes, IsName entry.1)
      fun attributes : List (String × String) =>
        String.join (attributes.map renderAttribute) ++ ">" :=
  selfDelimiting_renderAttribute.join_closed heads_renderAttribute (heads_ofList rfl) (by decide)

/-- Behind the name of a tag stands a blank or the end of the tag. -/
theorem not_nameChar_of_heads_attributes {attributes : List (String × String)} {back : String}
    {c : Char} (heads : Heads c (String.join (attributes.map renderAttribute) ++ ">" ++ back)) :
    ¬ (c.isAlphanum = true ∨ c = '-') := by
  cases attributes with
  | nil =>
    have ends : Heads '>' ">" := heads_ofList rfl
    rw [List.map_nil, String.join_nil, String.empty_append] at heads
    cases Option.some.inj (heads.symm.trans (ends.append back))
    decide
  | cons entry rest =>
    rw [List.map_cons, String.join_cons, String.append_assoc, String.append_assoc] at heads
    cases Option.some.inj (heads.symm.trans ((heads_renderAttribute entry).append _))
    decide

theorem renderOpening_append (tag : String) (attributes : List (String × String)) (back : String) :
    renderOpening tag attributes ++ back =
      "<" ++ (tag ++ (String.join (attributes.map renderAttribute) ++ ">" ++ back)) := by
  simp only [renderOpening, String.append_assoc]

/-- An opening tag gives back its name and its attributes. -/
theorem renderOpening_append_inj {tag other : String} {attributes others : List (String × String)}
    {after behind : String} (isName : IsName tag) (isOther : IsName other)
    (names : ∀ entry ∈ attributes, IsName entry.1) (otherNames : ∀ entry ∈ others, IsName entry.1)
    (same : renderOpening tag attributes ++ after = renderOpening other others ++ behind) :
    tag = other ∧ attributes = others ∧ after = behind := by
  rw [renderOpening_append, renderOpening_append, String.append_right_inj] at same
  obtain ⟨tags, rests⟩ := append_inj_of_stops (fun c => c.isAlphanum = true ∨ c = '-') isName.2
    isOther.2 (fun _ => not_nameChar_of_heads_attributes)
    (fun _ => not_nameChar_of_heads_attributes) same
  obtain ⟨entries, backs⟩ := selfDelimiting_attributes _ _ _ _ names otherNames rests
  exact ⟨tags, entries, backs⟩

/-- The text begins with the opening tag of an element. -/
def Opens (text : String) : Prop :=
  ∃ c rest, text.toList = '<' :: c :: rest ∧ (c.isAlphanum = true ∨ c = '-')

theorem opens_renderOpening {tag : String} (isName : IsName tag)
    (attributes : List (String × String)) (back : String) :
    Opens (renderOpening tag attributes ++ back) := by
  rw [renderOpening_append]
  cases chars : tag.toList with
  | nil => exact (isName.1 (String.toList_eq_nil_iff.mp chars)).elim
  | cons c rest =>
    have nameChar := isName.2 c (by rw [chars]; exact .head _)
    rw [Opens, String.toList_append, String.toList_append, chars]
    exact ⟨c, _, rfl, nameChar⟩

theorem not_opens_of_heads {c : Char} {text : String} (heads : Heads c text) (noTag : c ≠ '<') :
    ¬ Opens text := by
  rintro ⟨d, rest, chars, -⟩
  rw [Heads, chars] at heads
  exact noTag (Option.some.inj heads).symm

theorem not_opens_renderClosing (tag back : String) : ¬ Opens (renderClosing tag ++ back) := by
  rintro ⟨c, rest, chars, nameChar⟩
  simp only [renderClosing, String.toList_append] at chars
  cases chars
  revert nameChar
  decide

/-- What follows the opening tag of an element, up to its end. -/
def renderRest : Markup → String
  | .text _ => ""
  | .element tag _ children =>
    if voidTags.contains tag then "" else renderAll children ++ renderClosing tag

theorem render_element (tag : String) (attributes : List (String × String))
    (children : List Markup) :
    (Markup.element tag attributes children).render =
      renderOpening tag attributes ++ (Markup.element tag attributes children).renderRest := by
  rw [render, renderRest]
  split
  · rw [String.append_empty]
  · rw [String.append_assoc]

theorem heads_renderClosing (tag back : String) : Heads '<' (renderClosing tag ++ back) := by
  simp only [renderClosing, String.append_assoc]
  exact (heads_ofList rfl : Heads '<' "</").append _

theorem renderAll_text_append_inj {first second tag other after behind : String}
    (same : renderAll [.text first] ++ (renderClosing tag ++ after) =
      renderAll [.text second] ++ (renderClosing other ++ behind)) :
    first = second ∧ renderClosing tag ++ after = renderClosing other ++ behind := by
  simp only [renderAll, render, String.append_empty] at same
  obtain ⟨texts, rests⟩ := append_inj_of_mark (Entity.lessThan_not_mem_escapeText first)
    (Entity.lessThan_not_mem_escapeText second) (heads_renderClosing ..) (heads_renderClosing ..)
    same
  exact ⟨Entity.escapeText_inj texts, rests⟩

theorem Proper.opens {markup : Markup} (proper : markup.Proper) (back : String) :
    Opens (markup.render ++ back) := by
  cases markup with
  | text value => exact proper.elim
  | element tag attributes children =>
    rw [render_element, String.append_assoc]
    exact opens_renderOpening (isName_of_mem_bodyTags tag proper.1) attributes _

mutual

theorem render_append_inj : (first second : Markup) → first.Proper → second.Proper →
    (after behind : String) → first.render ++ after = second.render ++ behind →
    first = second ∧ after = behind
  | .text _, _, proper, _, _, _, _ => proper.elim
  | .element _ _ _, .text _, _, proper, _, _, _ => proper.elim
  | .element tag attributes children, .element other others inner, ⟨body, names, content⟩,
      ⟨otherBody, otherNames, otherContent⟩, after, behind, same => by
    rw [render_element, render_element, String.append_assoc, String.append_assoc] at same
    obtain ⟨rfl, rfl, rests⟩ := renderOpening_append_inj (isName_of_mem_bodyTags tag body)
      (isName_of_mem_bodyTags other otherBody) names otherNames same
    -- Both elements have one tag now, and the tag says what stands in them.
    rw [renderRest, renderRest] at rests
    by_cases void : voidTags.contains tag = true
    · rw [if_pos void] at content otherContent
      rw [if_pos void, if_pos void, String.empty_append, String.empty_append] at rests
      rw [content, otherContent]
      exact ⟨rfl, rests⟩
    · rw [if_neg void] at content otherContent
      rw [if_neg void, if_neg void, String.append_assoc, String.append_assoc] at rests
      have inside : children = inner ∧
          renderClosing tag ++ after = renderClosing tag ++ behind := by
        by_cases text : textTags.contains tag = true
        · rw [if_pos text] at content otherContent
          obtain ⟨value, rfl⟩ := content
          obtain ⟨otherValue, rfl⟩ := otherContent
          obtain ⟨rfl, backs⟩ := renderAll_text_append_inj rests
          exact ⟨rfl, backs⟩
        · rw [if_neg text] at content otherContent
          exact renderAll_append_inj children inner content otherContent
            (not_opens_renderClosing tag after) (not_opens_renderClosing tag behind) rests
      exact ⟨by rw [inside.1], (String.append_right_inj _).mp inside.2⟩

/-- The text of proper markup belongs to no other proper markup, if no further element follows. -/
theorem renderAll_append_inj : (first second : List Markup) → ProperAll first → ProperAll second →
    {after behind : String} → ¬ Opens after → ¬ Opens behind →
    renderAll first ++ after = renderAll second ++ behind → first = second ∧ after = behind
  | [], [], _, _, _, _, _, _, same => ⟨rfl, by simpa [renderAll] using same⟩
  | [], markup :: rest, _, ⟨proper, _⟩, after, _, ends, _, same => by
    rw [renderAll, renderAll, String.empty_append, String.append_assoc] at same
    exact (ends (same ▸ proper.opens _)).elim
  | markup :: rest, [], ⟨proper, _⟩, _, _, behind, _, ends, same => by
    rw [renderAll, renderAll, String.empty_append, String.append_assoc] at same
    exact (ends (same ▸ proper.opens _)).elim
  | markup :: rest, other :: others, ⟨proper, properRest⟩, ⟨otherProper, properOthers⟩, after,
      behind, ends, otherEnds, same => by
    rw [renderAll, renderAll, String.append_assoc, String.append_assoc] at same
    obtain ⟨first, backs⟩ := render_append_inj markup other proper otherProper _ _ same
    obtain ⟨tails, rests⟩ :=
      renderAll_append_inj rest others properRest properOthers ends otherEnds backs
    exact ⟨by rw [first, tails], rests⟩

end

end Markup

end Pagewright
