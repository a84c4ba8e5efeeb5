import Pagewright.Files
import Pagewright.Proofs.Paths

set_option autoImplicit false

namespace Pagewright.Files

/-- No files, seen from the root. -/
def empty : Files := ⟨fun _ => none, []⟩

section Names

theorem get_set_self {names : List String} (named : names ≠ []) (files : Files)
    (entry : Option Entry) : (files.set names entry).get names = entry := by
  simp [get, set, named]

theorem get_set_of_ne {names other : List String} (differ : other ≠ names) (files : Files)
    (entry : Option Entry) : (files.set names entry).get other = files.get other := by
  simp only [get, set, differ, if_false]

/-- The names that the components of a path lead to. -/
def target (files : Files) (path : Path) : List String :=
  path.components.foldl step (files.base path.absolute)

theorem step_dot (names : List String) : step names "." = names := rfl

theorem foldl_step_filter (segments names : List String) :
    (segments.filter fun segment => segment != ".").foldl step names =
      segments.foldl step names := by
  induction segments generalizing names with
  | nil => rfl
  | cons segment rest ih =>
    by_cases isDot : segment = "."
    · rw [List.filter_cons_of_neg (by simpa using isDot), ih, isDot, List.foldl_cons, step_dot]
    · rw [List.filter_cons_of_pos (by simpa using isDot), List.foldl_cons, List.foldl_cons, ih]

/-- The segments that are no components are dots and lead nowhere else. -/
theorem foldl_step_components (path : Path) (names : List String) :
    path.components.foldl step names = path.segments.foldl step names := by
  unfold Path.components
  split
  · rename_i none
    rw [none]
  · rename_i first rest whole
    rw [whole]
    split
    · rename_i isDot
      obtain rfl : first = "." := by
        simp only [Bool.and_eq_true, decide_eq_true_eq] at isDot
        exact isDot.1
      rw [List.nil_append, foldl_step_filter, List.foldl_cons, step_dot]
    · rw [List.singleton_append, List.foldl_cons, List.foldl_cons, foldl_step_filter]

end Names

section Finding

variable {files : Files}

theorem findFrom_cons_eq_ok {names : List String} {segment next : String} {rest : List String}
    {result : List String × Option Entry}
    (found : files.findFrom names (segment :: next :: rest) = .ok result) :
    files.get (step names segment) = some .directory ∧
      files.findFrom (step names segment) (next :: rest) = .ok result := by
  simp only [findFrom] at found
  split at found
  · cases found
  · cases found
  · rename_i directory
    exact ⟨directory, found⟩

theorem findFrom_eq_ok {names there : List String} {segments : List String} {entry : Option Entry}
    (start : segments = [] → files.get names = some .directory)
    (found : files.findFrom names segments = .ok (there, entry)) :
    there = segments.foldl step names ∧ entry = files.get there := by
  induction segments generalizing names with
  | nil =>
    cases found
    exact ⟨rfl, (start rfl).symm⟩
  | cons segment rest ih =>
    cases rest with
    | nil =>
      cases found
      exact ⟨rfl, rfl⟩
    | cons next rest =>
      obtain ⟨-, further⟩ := findFrom_cons_eq_ok found
      exact ih nofun further

/-- A new entry in the place of what is no directory is found on the same way. -/
theorem findFrom_set {names there : List String} {segments : List String} {before : Option Entry}
    (found : files.findFrom names segments = .ok (there, before))
    (noDirectory : before ≠ some .directory) (entry : Option Entry) :
    (files.set there entry).findFrom names segments = .ok (there, entry) := by
  induction segments generalizing names with
  | nil =>
    cases found
    exact absurd rfl noDirectory
  | cons segment rest ih =>
    have here : before = files.get there :=
      (findFrom_eq_ok (fun none => absurd none (List.cons_ne_nil _ _)) found).2
    cases rest with
    | nil =>
      cases found
      have named : step names segment ≠ [] := by
        intro root
        rw [root] at noDirectory
        exact noDirectory rfl
      rw [findFrom, get_set_self named]
    | cons next rest =>
      obtain ⟨directory, further⟩ := findFrom_cons_eq_ok found
      have between : step names segment ≠ there := by
        intro same
        rw [same] at directory
        exact noDirectory (here.trans directory)
      simp only [findFrom, get_set_of_ne between, directory]
      exact ih further

theorem findFrom_of_find_eq_ok {path : Path} {there : List String} {entry : Option Entry}
    (found : files.find path = .ok (there, entry)) :
    files.findFrom (files.base path.absolute) path.segments = .ok (there, entry) := by
  unfold find at found
  split at found
  · cases found
  · split at found
    · cases found
    · exact found

theorem find_eq_ok {path : Path} {there : List String} {entry : Option Entry}
    (found : files.find path = .ok (there, entry)) :
    there = files.target path ∧ entry = files.get there := by
  have way := findFrom_of_find_eq_ok found
  rw [target, foldl_step_components]
  refine findFrom_eq_ok (fun none => ?_) way
  -- Only an absolute path has no segments.
  cases absolute : path.absolute with
  | true => rfl
  | false =>
    rw [find] at found
    simp [none, absolute] at found

theorem find_set {path : Path} {there : List String} {before : Option Entry}
    (found : files.find path = .ok (there, before)) (noDirectory : before ≠ some .directory)
    (entry : Option Entry) : (files.set there entry).find path = .ok (there, entry) := by
  have way := findFrom_set (findFrom_of_find_eq_ok found) noDirectory entry
  rw [find] at found ⊢
  split at found
  · cases found
  · rename_i clean
    rw [if_neg clean]
    split at found
    · cases found
    · rename_i leads
      rw [if_neg leads]
      exact way

end Finding

section Writing

variable {files after : Files} {text : String}

/-- A written file is found under its path, and nothing else has changed. -/
theorem write_eq_ok {content : ByteArray} (written : files.write text content = .ok after) :
    files.get (files.target (.ofText text)) ≠ some .directory ∧
      after = files.set (files.target (.ofText text)) (some (.file content)) ∧
      after.read text = .ok content := by
  cases found : files.find (.ofText text) with
  | error fault =>
    simp only [write, found] at written
    cases written
  | ok result =>
    obtain ⟨there, before⟩ := result
    obtain ⟨rfl, here⟩ := find_eq_ok found
    have noDirectory : before ≠ some .directory := by
      rintro rfl
      simp only [write, found] at written
      cases written
    have outcome : (if (Path.ofText text).slash then Except.error FileFault.isDirectory
        else .ok (files.set (files.target (.ofText text)) (some (.file content)))) = .ok after := by
      simp only [write, found] at written
      rcases before with _ | _ | old
      · exact written
      · exact absurd rfl noDirectory
      · exact written
    split at outcome
    · cases outcome
    · rename_i noSlash
      cases outcome
      refine ⟨here ▸ noDirectory, rfl, ?_⟩
      simp only [read, find_set found noDirectory]
      exact if_neg noSlash

/-- A text that is written is read back. -/
theorem readText_of_read_eq_ok {content : String} (found : files.read text = .ok content.toUTF8) :
    files.readText text = .ok content := by
  have decoded : String.fromUTF8? content.toUTF8 = some content := by
    simp only [String.fromUTF8?, String.toUTF8_eq_toByteArray, dif_pos content.isValidUTF8]
    rfl
  simp only [readText, found, bind, Except.bind, decoded]

end Writing

section Growing

/-- The first of the segments lead to the names. -/
def LeadsThrough (files : Files) (absolute : Bool) (segments names : List String) : Prop :=
  ∃ front, front <+: segments ∧ front.foldl step (files.base absolute) = names

theorem LeadsThrough.mono {files : Files} {absolute : Bool} {segments more names : List String}
    (leads : files.LeadsThrough absolute segments names) (front : segments <+: more) :
    files.LeadsThrough absolute more names := by
  obtain ⟨inner, first, rfl⟩ := leads
  exact ⟨inner, first.trans front, rfl⟩

/-- All that differs are new directories where nothing was, under names that are allowed. -/
structure Grows (allowed : List String → Prop) (before after : Files) : Prop where
  here : after.here = before.here
  get : ∀ names, after.get names = before.get names ∨
    allowed names ∧ before.get names = none ∧ after.get names = some .directory

variable {allowed wider : List String → Prop} {before between after : Files}

theorem Grows.refl (allowed : List String → Prop) (files : Files) : Grows allowed files files :=
  ⟨rfl, fun _ => .inl rfl⟩

theorem Grows.trans (first : Grows allowed before between) (second : Grows allowed between after) :
    Grows allowed before after := by
  refine ⟨second.here.trans first.here, fun names => ?_⟩
  rcases second.get names with same | ⟨within, absent, made⟩
  · rw [same]
    exact first.get names
  · rcases first.get names with same | ⟨-, -, already⟩
    · exact .inr ⟨within, same ▸ absent, made⟩
    · rw [absent] at already
      cases already

theorem Grows.mono (grows : Grows allowed before after)
    (within : ∀ names, allowed names → wider names) : Grows wider before after :=
  ⟨grows.here, fun names => (grows.get names).imp_right fun ⟨inside, rest⟩ =>
    ⟨within names inside, rest⟩⟩

theorem Grows.base (grows : Grows allowed before after) (absolute : Bool) :
    after.base absolute = before.base absolute := by
  rw [Files.base, Files.base, grows.here]

theorem Grows.target (grows : Grows allowed before after) (path : Path) :
    after.target path = before.target path := by
  rw [Files.target, Files.target, grows.base]

theorem makeDirectory_grows {files made : Files} {path : Path}
    (succeeds : files.makeDirectory path = .ok made) (within : allowed (files.target path)) :
    Grows allowed files made := by
  cases found : files.find path with
  | error fault =>
    simp only [makeDirectory, found] at succeeds
    cases succeeds
  | ok result =>
    obtain ⟨there, before⟩ := result
    obtain ⟨rfl, here⟩ := find_eq_ok found
    simp only [makeDirectory, found] at succeeds
    cases before with
    | some entry => cases succeeds
    | none =>
      cases succeeds
      have named : files.target path ≠ [] := by
        intro root
        rw [root] at here
        cases here
      refine ⟨rfl, fun names => ?_⟩
      by_cases same : names = files.target path
      · subst same
        exact .inr ⟨within, here.symm, get_set_self named ..⟩
      · exact .inl (get_set_of_ne same ..)

/-- Whether it succeeds or not, making the directory of some components makes only directories that
these components lead through. -/
theorem makeDirectories_grows (files : Files) (absolute : Bool) (components : List String) :
    Grows (files.LeadsThrough absolute components.reverse) files
      (files.makeDirectories absolute components).2 := by
  induction components with
  | nil => exact .refl _ _
  | cons last before ih =>
    have whole : files.LeadsThrough absolute (last :: before).reverse
        (files.target ⟨absolute, (last :: before).reverse, false⟩) := by
      rw [target, foldl_step_components]
      exact ⟨_, List.prefix_rfl, rfl⟩
    have parents : Grows (files.LeadsThrough absolute (last :: before).reverse) files
        (files.makeDirectories absolute before).2 :=
      ih.mono fun names leads => leads.mono (List.reverse_cons ▸ List.prefix_append ..)
    unfold makeDirectories
    dsimp only
    split
    · rename_i made succeeds
      exact makeDirectory_grows succeeds whole
    · -- A directory that the last one stands in is missing, and is made first.
      split
      · rename_i outcome
        rw [outcome] at parents
        exact parents
      · rename_i outcome
        rw [outcome] at parents
        split
        · rename_i made succeeds
          exact parents.trans (makeDirectory_grows succeeds (parents.target _ ▸ whole))
        · split <;> exact parents
    · split <;> exact .refl _ _

theorem createDirectories_grows (files : Files) (text : String) :
    Grows (files.LeadsThrough (Path.ofText text).absolute (Path.ofText text).components) files
      (files.createDirectories text).2 := by
  have grows := makeDirectories_grows files (Path.ofText text).absolute
    (Path.ofText text).components.reverse
  rw [List.reverse_reverse] at grows
  exact grows

end Growing

end Pagewright.Files
