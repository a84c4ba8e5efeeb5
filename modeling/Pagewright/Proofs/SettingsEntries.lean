import Pagewright.Proofs.Readers
import Pagewright.Settings.Read

set_option autoImplicit false

namespace Pagewright.Yaml

section Entries

variable {α β : Type} {setters : Setters α} {key : β → String} {value : β → Yaml}
  {keys seen : List String} {name : String} {items : List β}

/-- The keys of a level that stand for settings. -/
def knownKeys (setters : Setters α) (keys : List String) : List String :=
  keys.filter fun name => (setters name).isSome

/-- What was seen behind some keys: the known ones among them. -/
def Seen (setters : Setters α) (keys seen : List String) : Prop :=
  ∀ name, name ∈ seen ↔ name ∈ knownKeys setters keys

theorem knownKeys_append (first second : List String) :
    knownKeys setters (first ++ second) = knownKeys setters first ++ knownKeys setters second :=
  List.filter_append ..

theorem knownKeys_cons_of_some {set : Yaml → α → Option α} (known : setters name = some set) :
    knownKeys setters (name :: keys) = name :: knownKeys setters keys :=
  List.filter_cons_of_pos (by rw [known]; rfl)

theorem knownKeys_cons_of_none (unknown : setters name = none) :
    knownKeys setters (name :: keys) = knownKeys setters keys :=
  List.filter_cons_of_neg (by simp [unknown])

theorem Seen.ignored (isSeen : Seen setters keys seen) (unknown : setters name = none) :
    Seen setters (keys ++ [name]) seen := by
  intro other
  rw [isSeen, knownKeys_append, knownKeys_cons_of_none unknown]
  simp [knownKeys]

theorem Seen.added (isSeen : Seen setters keys seen) {set : Yaml → α → Option α}
    (known : setters name = some set) : Seen setters (keys ++ [name]) (name :: seen) := by
  intro other
  rw [List.mem_cons, isSeen, knownKeys_append, knownKeys_cons_of_some known, List.mem_append,
    List.mem_cons, or_comm]
  simp [knownKeys]

theorem applyEntries_unknown {record : α} {rest : List (Yaml × Yaml)} {value : Yaml}
    (unknown : setters name = none) :
    applyEntries setters seen record ((.scalar true name, value) :: rest) =
      applyEntries setters seen record rest := by
  simp [applyEntries, text?, unknown]

theorem applyEntries_known {record : α} {rest : List (Yaml × Yaml)} {value : Yaml}
    {set : Yaml → α → Option α} (known : setters name = some set) :
    applyEntries setters seen record ((.scalar true name, value) :: rest) =
      if name ∈ seen then none
      else (set value record).bind fun record =>
        applyEntries setters (name :: seen) record rest := by
  simp [applyEntries, text?, known]

/-- If no known key stands twice, entries give the record that goes with all of the items, where
each entry leads from what goes with the items before it to what goes with it too. -/
theorem applyEntries_map (key : β → String) (value : β → Yaml) (record : List β → α)
    (ignores : ∀ done item, (∀ other ∈ done, other ∈ items) → item ∈ items →
      setters (key item) = none → record (done ++ [item]) = record done)
    (sets : ∀ done item set, (∀ other ∈ done, other ∈ items) → item ∈ items →
      setters (key item) = some set → key item ∉ done.map key →
      set (value item) (record done) = some (record (done ++ [item])))
    (once : (knownKeys setters (items.map key)).Nodup) :
    applyEntries setters [] (record [])
        (items.map fun item => (.scalar true (key item), value item)) =
      some (record items) := by
  have run : ∀ rest done seen, items = done ++ rest → Seen setters (done.map key) seen →
      applyEntries setters seen (record done)
          (rest.map fun item => (.scalar true (key item), value item)) = some (record items) := by
    intro rest
    induction rest with
    | nil =>
      intro done seen split isSeen
      rw [split, List.append_nil]
      rfl
    | cons item rest ih =>
      intro done seen split isSeen
      have before : ∀ other ∈ done, other ∈ items := by
        rw [split]
        exact fun other member => List.mem_append_left _ member
      have listed : item ∈ items := by
        rw [split]
        exact List.mem_append_right _ (.head _)
      have next := ih (done ++ [item])
      rw [List.append_assoc, List.map_append] at next
      cases found : setters (key item) with
      | none =>
        rw [List.map_cons, applyEntries_unknown found, ← ignores done item before listed found]
        exact next seen split (isSeen.ignored found)
      | some set =>
        have unseen : key item ∉ seen := by
          rw [isSeen]
          rw [split, List.map_append, List.map_cons, knownKeys_append, knownKeys_cons_of_some found,
            List.nodup_append] at once
          exact fun repeated => once.2.2 _ repeated _ (.head _) rfl
        have absent : key item ∉ done.map key := by
          rw [isSeen, knownKeys, List.mem_filter, found] at unseen
          exact fun member => unseen ⟨member, rfl⟩
        rw [List.map_cons, applyEntries_known found, if_neg unseen,
          sets done item set before listed found absent, Option.bind_some]
        exact next (key item :: seen) split (isSeen.added found)
  exact run items [] [] rfl fun _ => Iff.rfl

/-- Of entries that give a record, no known key stands twice, and each of them was applied. -/
theorem of_applyEntries_eq_some (key : β → String) (value : β → Yaml) {start result : α}
    (read : applyEntries setters seen start
      (items.map fun item => (.scalar true (key item), value item)) = some result) :
    (knownKeys setters (items.map key)).Nodup ∧
    (∀ name ∈ knownKeys setters (items.map key), name ∉ seen) ∧
    ∀ item ∈ items, ∀ set, setters (key item) = some set →
      ∃ before after, set (value item) before = some after := by
  induction items generalizing seen start with
  | nil => exact ⟨.nil, fun _ member => (nomatch member), fun _ member => nomatch member⟩
  | cons item rest ih =>
    rw [List.map_cons] at read ⊢
    cases found : setters (key item) with
    | none =>
      rw [applyEntries_unknown found] at read
      obtain ⟨once, fresh, applied⟩ := ih read
      rw [knownKeys_cons_of_none found]
      refine ⟨once, fresh, List.forall_mem_cons.mpr ⟨fun set known => ?_, applied⟩⟩
      rw [found] at known
      cases known
    | some set =>
      rw [applyEntries_known found] at read
      split at read
      · cases read
      · rename_i unseen
        obtain ⟨after, given, read⟩ := Option.bind_eq_some_iff.mp read
        obtain ⟨once, fresh, applied⟩ := ih read
        rw [knownKeys_cons_of_some found]
        have unseenRest : ∀ name ∈ knownKeys setters (rest.map key), name ∉ seen :=
          fun name member isSeen => fresh name member (.tail _ isSeen)
        refine ⟨List.nodup_cons.mpr ⟨fun repeated => fresh _ repeated (.head _), once⟩,
          List.forall_mem_cons.mpr ⟨unseen, unseenRest⟩,
          List.forall_mem_cons.mpr ⟨fun other known => ?_, applied⟩⟩
        cases found.symm.trans known
        exact ⟨start, after, given⟩

end Entries

section Scalars

theorem bool?_toString (value : Bool) : (scalar true (toString value)).bool? = some value := by
  cases value <;> rfl

theorem number?_digits {digits : List Char} (filled : digits ≠ [])
    (all : ∀ c ∈ digits, c.isDigit = true) :
    number? 10 digits = some (Nat.ofDigitChars 10 digits 0) := by
  have counted : ∀ value, digits.foldlM (fun value c => do
      let digit ← digitValue? c
      if digit < 10 then some (value * 10 + digit) else none) value =
        some (Nat.ofDigitChars 10 digits value) := by
    clear filled
    induction digits with
    | nil => exact fun _ => rfl
    | cons c digits ih =>
      intro value
      obtain ⟨isDigit, others⟩ := List.forall_mem_cons.mp all
      have small : c.toNat - '0'.toNat < 10 := by
        have high : c.toNat ≤ 57 := (Char.isDigit_iff_toNat.mp isDigit).2
        change c.toNat - 48 < 10
        omega
      have step : (do
          let digit ← digitValue? c
          if digit < 10 then some (value * 10 + digit) else none) =
            some (10 * value + (c.toNat - '0'.toNat)) := by
        rw [digitValue?, if_pos isDigit, Option.bind_eq_bind, Option.bind_some, if_pos small,
          Nat.mul_comm]
      rw [List.foldlM_cons, step, Nat.ofDigitChars_cons]
      exact ih others _
  rw [number?, List.isEmpty_eq_false_iff.mpr filled]
  exact counted 0

theorem unsigned?_toDigits (value : Nat) : unsigned? (Nat.toDigits 10 value) = some value := by
  rcases Nat.eq_zero_or_pos value with rfl | positive
  · rfl
  · have noZero := head?_toDigits_ne_zero positive
    have read := number?_digits (Nat.toDigits_ne_nil (b := 10) (n := value))
      fun c => Nat.isDigit_of_mem_toDigits (by decide) (by decide)
    rw [Nat.ofDigitChars_ten_toDigits] at read
    rw [← read]
    cases digits : Nat.toDigits 10 value with
    | nil => rfl
    | cons c rest =>
      rw [digits] at noZero
      have notZero : c ≠ '0' := fun same => noZero (same ▸ rfl)
      simp [unsigned?, notZero]

theorem size?_repr (size : UInt32) : (scalar true size.toNat.repr).size? = some size := by
  have read := unsigned?_toDigits size.toNat
  have noPlus : ∀ c ∈ Nat.toDigits 10 size.toNat, c ≠ '+' := by
    rintro c member rfl
    exact absurd (Nat.isDigit_of_mem_toDigits (b := 10) (by decide) (by decide) member) (by decide)
  rw [size?, Nat.toList_repr]
  cases digits : Nat.toDigits 10 size.toNat with
  | nil => exact absurd digits Nat.toDigits_ne_nil
  | cons c rest =>
    rw [digits] at read noPlus
    have small : size.toNat < UInt32.size := size.toNat_lt
    simp [noPlus c (.head _), read, small]

end Scalars

end Pagewright.Yaml
