import Pagewright.Files.Path

set_option autoImplicit false

namespace Pagewright

theorem splitSlashes_eq_splitOn (cs : List Char) : splitSlashes cs = cs.splitOn '/' := by
  induction cs with
  | nil => rfl
  | cons c cs ih =>
    rw [splitSlashes, ih, List.splitOn_cons_eq_if_modifyHead]
    cases split : cs.splitOn '/' with
    | nil => exact absurd split (List.splitOn_ne_nil _ _)
    | cons first rest =>
      by_cases slash : c = '/'
      · simp [slash]
      · simp [slash]

theorem slash_not_mem_of_mem_splitSlashes {cs part : List Char} (member : part ∈ splitSlashes cs) :
    '/' ∉ part := by
  induction cs generalizing part with
  | nil =>
    obtain rfl := List.mem_singleton.mp member
    exact List.not_mem_nil
  | cons c cs ih =>
    unfold splitSlashes at member
    split at member
    · rename_i none
      exact absurd (splitSlashes_eq_splitOn cs ▸ none) (List.splitOn_ne_nil _ _)
    · rename_i first rest split
      rw [split] at ih
      split at member
      · rcases List.mem_cons.mp member with rfl | inside
        · exact List.not_mem_nil
        · exact ih inside
      · rename_i other
        rcases List.mem_cons.mp member with rfl | inside
        · exact List.not_mem_cons_of_ne_of_not_mem (Ne.symm other) (ih (.head _))
        · exact ih (.tail _ inside)

/-- A text that can stand between the slashes of a path. -/
structure IsSegment (text : String) : Prop where
  nonempty : text.toList ≠ []
  noSlash : '/' ∉ text.toList

namespace Path

theorem isSegment_of_mem_segments {text segment : String}
    (member : segment ∈ (ofText text).segments) : IsSegment segment := by
  obtain ⟨part, kept, rfl⟩ := List.mem_map.mp member
  obtain ⟨split, nonempty⟩ := List.mem_filter.mp kept
  constructor
  · rw [String.toList_ofList]
    rintro rfl
    cases nonempty
  · rw [String.toList_ofList]
    exact slash_not_mem_of_mem_splitSlashes split

theorem mem_segments_of_mem_components {path : Path} {segment : String}
    (member : segment ∈ path.components) : segment ∈ path.segments := by
  unfold components at member
  split at member
  · cases member
  · rename_i first rest whole
    rw [whole]
    rcases List.mem_append.mp member with inFront | inRest
    · split at inFront
      · cases inFront
      · exact List.mem_cons.mpr (.inl (List.mem_singleton.mp inFront))
    · exact .tail _ (List.mem_filter.mp inRest).1

theorem isSegment_of_mem_components {text segment : String}
    (member : segment ∈ (ofText text).components) : IsSegment segment :=
  isSegment_of_mem_segments (mem_segments_of_mem_components member)

/-- A dot is a component only at the beginning of a relative path. -/
theorem of_components_eq_cons {path : Path} {first : String} {rest : List String}
    (whole : path.components = first :: rest) :
    (first = "." → path.absolute = false) ∧ ∀ segment ∈ rest, segment ≠ "." := by
  have others : ∀ {segments : List String} {segment : String},
      segment ∈ segments.filter (fun segment => segment != ".") → segment ≠ "." :=
    fun member => bne_iff_ne.mp (List.mem_filter.mp member).2
  unfold components at whole
  split at whole
  · cases whole
  · split at whole
    · rw [List.nil_append] at whole
      have noDot : ∀ segment ∈ first :: rest, segment ≠ "." :=
        fun segment member => others (whole ▸ member)
      exact ⟨fun isDot => absurd isDot (noDot first (.head _)),
        fun segment member => noDot segment (.tail _ member)⟩
    · rename_i kept
      obtain ⟨rfl, rfl⟩ := List.cons.inj whole
      refine ⟨fun isDot => ?_, fun segment => others⟩
      rw [isDot] at kept
      simpa using kept

/-- A path whose segments begin the components of a path has no further ones to leave out. -/
theorem components_of_segments_isPrefix {path other : Path}
    (same : other.absolute = path.absolute) (front : other.segments <+: path.components) :
    other.components = other.segments := by
  unfold components
  cases segments : other.segments with
  | nil => rfl
  | cons first rest =>
    obtain ⟨back, whole⟩ := front
    rw [segments, List.cons_append] at whole
    obtain ⟨relative, noDot⟩ := of_components_eq_cons whole.symm
    have kept : ¬(first = "." && other.absolute) = true := by
      rw [same]
      simpa using relative
    have others : rest.filter (fun segment => segment != ".") = rest :=
      List.filter_eq_self.mpr fun segment member =>
        bne_iff_ne.mpr (noDot segment (List.mem_append_left _ member))
    simp only [kept, others]
    rfl

theorem toList_textOf (absolute : Bool) (parts : List String) :
    (textOf absolute parts).toList =
      (if absolute then ['/'] else []) ++ ['/'].intercalate (parts.map String.toList) := by
  rw [textOf, String.toList_append, String.toList_intercalate]
  cases absolute <;> rfl

theorem segments_ofText_textOf (absolute : Bool) {parts : List String}
    (each : ∀ part ∈ parts, IsSegment part) :
    (ofText (textOf absolute parts)).segments = parts := by
  have split : (splitSlashes (['/'].intercalate (parts.map String.toList))).filter
      (fun segment => !segment.isEmpty) = parts.map String.toList := by
    cases parts with
    | nil => rfl
    | cons first rest =>
      have apart : ∀ part ∈ (first :: rest).map String.toList, '/' ∉ part :=
        List.forall_mem_map.mpr fun part member => (each part member).noSlash
      have nonempty : ∀ part ∈ (first :: rest).map String.toList, (!part.isEmpty) = true :=
        List.forall_mem_map.mpr fun part member => by
          simpa using (each part member).nonempty
      rw [splitSlashes_eq_splitOn, List.splitOn_intercalate '/' apart (List.cons_ne_nil _ _)]
      exact List.filter_eq_self.mpr nonempty
  have read : ((splitSlashes (textOf absolute parts).toList).filter
      fun segment => !segment.isEmpty) = parts.map String.toList := by
    rw [toList_textOf]
    cases absolute with
    | false => exact split
    | true =>
      rw [splitSlashes_eq_splitOn] at split ⊢
      -- Before the first slash of an absolute path stands an empty text.
      simpa [List.splitOn_cons_eq_if_modifyHead] using split
  rw [ofText, read, List.map_map]
  exact List.map_id'' (fun part => String.ofList_toList) parts

theorem absolute_ofText_textOf (absolute : Bool) {parts : List String}
    (each : ∀ part ∈ parts, IsSegment part) :
    (ofText (textOf absolute parts)).absolute = absolute := by
  rw [ofText, toList_textOf]
  cases absolute with
  | true => rfl
  | false =>
    cases parts with
    | nil => rfl
    | cons first rest =>
      obtain ⟨nonempty, noSlash⟩ := each first (.head _)
      cases chars : first.toList with
      | nil => exact absurd chars nonempty
      | cons c cs =>
        have differ : c ≠ '/' := by
          rintro rfl
          exact noSlash (chars ▸ .head _)
        cases rest with
        | nil => simpa [List.intercalate, chars] using differ
        | cons second rest => simpa [List.intercalate, chars] using differ

/-- The directory that a path stands in, when it is read from its text. -/
theorem ofText_textOf_dropLast (text : String) :
    let path := ofText text
    let parent := ofText (textOf path.absolute path.components.dropLast)
    parent.absolute = path.absolute ∧ parent.components = path.components.dropLast := by
  intro path parent
  have each : ∀ part ∈ path.components.dropLast, IsSegment part := fun part member =>
    isSegment_of_mem_components (List.dropLast_subset _ member)
  have absolute : parent.absolute = path.absolute := absolute_ofText_textOf _ each
  have segments : parent.segments = path.components.dropLast := segments_ofText_textOf _ each
  refine ⟨absolute, ?_⟩
  rw [components_of_segments_isPrefix absolute (segments ▸ List.dropLast_prefix _), segments]

end Path

end Pagewright
