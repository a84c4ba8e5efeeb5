import Pagewright.Proofs.ScriptLiterals

set_option autoImplicit false

namespace Pagewright

open Text

/-- The end of what is written for a valid item can be told from itself, whatever follows. -/
def SelfDelimiting {α β : Type} [Append β] (valid : α → Prop) (write : α → β) : Prop :=
  ∀ first second after behind, valid first → valid second →
    write first ++ after = write second ++ behind → first = second ∧ after = behind

theorem selfDelimiting_script : SelfDelimiting (fun _ => True) Literal.script :=
  fun _ _ _ _ _ _ same => Literal.script_append_inj same

/-- The text begins with the character. -/
def Heads (c : Char) (text : String) : Prop := text.toList.head? = some c

/-- For fixed texts, which reduce to their characters. -/
theorem heads_ofList {c : Char} {text : List Char} (first : text.head? = some c) :
    Heads c (String.ofList text) := by
  rw [Heads, String.toList_ofList, first]

theorem Heads.append {c : Char} {front : String} (heads : Heads c front) (back : String) :
    Heads c (front ++ back) := by
  rw [Heads, String.toList_append, List.head?_append, show front.toList.head? = some c from heads]
  rfl

theorem Heads.ne {c d : Char} {first second : String} (left : Heads c first)
    (right : Heads d second) (differ : c ≠ d) : first ≠ second := by
  rintro rfl
  exact differ (Option.some.inj (left.symm.trans right))

/-- The text ends with the character. -/
def Ends (c : Char) (text : String) : Prop := text.toList.getLast? = some c

theorem ends_ofList {c : Char} {text : List Char} (last : text.getLast? = some c) :
    Ends c (String.ofList text) := by
  rw [Ends, String.toList_ofList, last]

theorem Ends.append {c : Char} {back : String} (ends : Ends c back) (front : String) :
    Ends c (front ++ back) := by
  rw [Ends, String.toList_append, List.getLast?_append,
    show back.toList.getLast? = some c from ends]
  rfl

theorem Ends.ne {c d : Char} {first second : String} (left : Ends c first) (right : Ends d second)
    (differ : c ≠ d) : first ≠ second := by
  rintro rfl
  exact differ (Option.some.inj (left.symm.trans right))

theorem heads_script (text : String) : Heads '"' (Literal.script text) := by
  rw [Heads, Literal.toList_script_eq]
  rfl

/-- Fixed texts are put together character by character. -/
theorem ofList_append_ofList {front back whole : List Char} (together : front ++ back = whole) :
    String.ofList front ++ String.ofList back = String.ofList whole := by
  rw [← String.ofList_append, together]

theorem not_mem_ofList {c : Char} {text : List Char} (absent : text.contains c = false) :
    c ∉ (String.ofList text).toList := by
  rw [String.toList_ofList]
  simpa using absent

/-- Whether two texts differ at a place where both have a character. -/
def clashes : List Char → List Char → Bool
  | c :: first, d :: second => c != d || clashes first second
  | _, _ => false

theorem append_ne_append_of_clashes {first second : List Char}
    (clash : clashes first second = true) (after behind : List Char) :
    first ++ after ≠ second ++ behind := by
  induction first generalizing second with
  | nil => cases clash
  | cons c first ih =>
    cases second with
    | nil => cases clash
    | cons d second =>
      intro same
      obtain ⟨heads, tails⟩ := List.cons.inj same
      rcases Bool.or_eq_true_iff.mp clash with differ | later
      · exact bne_iff_ne.mp differ heads
      · exact ih later tails

/-- Fixed texts that differ at some place cannot both begin a text. -/
theorem ofList_append_ne {first second : List Char} (clash : clashes first second = true)
    (after behind : String) : String.ofList first ++ after ≠ String.ofList second ++ behind := by
  intro same
  have chars := congrArg String.toList same
  simp only [String.toList_append, String.toList_ofList] at chars
  exact append_ne_append_of_clashes clash _ _ chars

theorem append_inj_of_inside (inside : Char → Prop) {first second after behind : List Char}
    (inFirst : ∀ c ∈ first, inside c) (inSecond : ∀ c ∈ second, inside c)
    (stopAfter : ∀ c, after.head? = some c → ¬ inside c)
    (stopBehind : ∀ c, behind.head? = some c → ¬ inside c)
    (same : first ++ after = second ++ behind) : first = second ∧ after = behind := by
  induction first generalizing second with
  | nil =>
    cases second with
    | nil => exact ⟨rfl, same⟩
    | cons d second =>
      have outside := stopAfter d (by rw [← List.nil_append after, same]; rfl)
      exact (outside (inSecond d (.head _))).elim
  | cons c first ih =>
    cases second with
    | nil =>
      have outside := stopBehind c (by rw [← List.nil_append behind, ← same]; rfl)
      exact (outside (inFirst c (.head _))).elim
    | cons d second =>
      obtain ⟨rfl, tails⟩ := List.cons.inj same
      have rest := ih (fun c member => inFirst c (.tail _ member))
        (fun c member => inSecond c (.tail _ member)) tails
      exact ⟨congrArg _ rest.1, rest.2⟩

/-- Two texts of characters of one kind, before texts that begin with another kind. -/
theorem append_inj_of_stops (inside : Char → Prop) {first second after behind : String}
    (inFirst : ∀ c ∈ first.toList, inside c) (inSecond : ∀ c ∈ second.toList, inside c)
    (stopAfter : ∀ c, Heads c after → ¬ inside c) (stopBehind : ∀ c, Heads c behind → ¬ inside c)
    (same : first ++ after = second ++ behind) : first = second ∧ after = behind := by
  have chars := congrArg String.toList same
  rw [String.toList_append, String.toList_append] at chars
  obtain ⟨fronts, backs⟩ := append_inj_of_inside inside inFirst inSecond stopAfter stopBehind chars
  exact ⟨String.toList_inj.mp fronts, String.toList_inj.mp backs⟩

/-- Two texts without a mark, before texts that begin with the mark. -/
theorem append_inj_of_mark {mark : Char} {first second after behind : String}
    (notFirst : mark ∉ first.toList) (notSecond : mark ∉ second.toList)
    (marksAfter : Heads mark after) (marksBehind : Heads mark behind)
    (same : first ++ after = second ++ behind) : first = second ∧ after = behind := by
  apply append_inj_of_stops (fun c => c ≠ mark) _ _ _ _ same
  · rintro c member rfl
    exact notFirst member
  · rintro c member rfl
    exact notSecond member
  · intro c heads differ
    exact differ (Option.some.inj (heads.symm.trans marksAfter))
  · intro c heads differ
    exact differ (Option.some.inj (heads.symm.trans marksBehind))

/-- Two texts without a mark, behind texts that end with the mark. -/
theorem append_inj_behind_mark {mark : Char} {first second after behind : String}
    (endsFirst : Ends mark first) (endsSecond : Ends mark second)
    (notAfter : mark ∉ after.toList) (notBehind : mark ∉ behind.toList)
    (same : first ++ after = second ++ behind) : first = second ∧ after = behind := by
  have chars := congrArg (fun text => text.toList.reverse) same
  simp only [String.toList_append, List.reverse_append] at chars
  obtain ⟨backs, fronts⟩ := append_inj_of_inside (fun c => c ≠ mark)
    (by rintro c member rfl; exact notAfter (List.mem_reverse.mp member))
    (by rintro c member rfl; exact notBehind (List.mem_reverse.mp member))
    (by
      intro c heads differ
      rw [List.head?_reverse, show _ = some mark from endsFirst] at heads
      exact differ (Option.some.inj heads).symm)
    (by
      intro c heads differ
      rw [List.head?_reverse, show _ = some mark from endsSecond] at heads
      exact differ (Option.some.inj heads).symm)
    chars
  exact ⟨String.toList_inj.mp (List.reverse_inj.mp fronts),
    String.toList_inj.mp (List.reverse_inj.mp backs)⟩

namespace SelfDelimiting

section

variable {α β : Type} {valid : α → Prop} {write : α → List β}

/-- What can be read back, whatever follows it, delimits itself. -/
theorem of_read {read : List β → Option (α × List β)}
    (reads : ∀ item rest, valid item → read (write item ++ rest) = some (item, rest)) :
    SelfDelimiting valid write := by
  intro first second after behind validFirst validSecond same
  have left := reads first after validFirst
  rw [same, reads second behind validSecond] at left
  obtain ⟨items, rests⟩ := Prod.mk.inj (Option.some.inj left)
  exact ⟨items.symm, rests.symm⟩

/-- Items that delimit themselves are read off one after another, up to a closing text that begins
none of them. -/
theorem flatMap_closed (delimiting : SelfDelimiting valid write) {closing : List β}
    (apart : ∀ item, valid item → ∀ after behind, write item ++ after ≠ closing ++ behind) :
    SelfDelimiting (fun items => ∀ item ∈ items, valid item)
      fun items : List α => items.flatMap write ++ closing := by
  intro first second after behind validFirst validSecond same
  rw [List.append_assoc, List.append_assoc] at same
  induction first generalizing second with
  | nil =>
    cases second with
    | nil => exact ⟨rfl, List.append_cancel_left same⟩
    | cons item second =>
      rw [List.flatMap_cons, List.append_assoc] at same
      exact (apart item (validSecond item (.head _)) _ _ same.symm).elim
  | cons item first ih =>
    cases second with
    | nil =>
      rw [List.flatMap_cons, List.append_assoc] at same
      exact (apart item (validFirst item (.head _)) _ _ same).elim
    | cons other second =>
      obtain ⟨validItem, validRest⟩ := List.forall_mem_cons.mp validFirst
      obtain ⟨validOther, validOthers⟩ := List.forall_mem_cons.mp validSecond
      rw [List.flatMap_cons, List.flatMap_cons, List.append_assoc, List.append_assoc] at same
      obtain ⟨rfl, rest⟩ := delimiting _ _ _ _ validItem validOther same
      obtain ⟨rfl, ends⟩ := ih second validRest validOthers rest
      exact ⟨rfl, ends⟩

theorem flatMap_injective (delimiting : SelfDelimiting valid write)
    (filled : ∀ item, valid item → write item ≠ []) {first second : List α}
    (validFirst : ∀ item ∈ first, valid item) (validSecond : ∀ item ∈ second, valid item)
    (same : first.flatMap write = second.flatMap write) : first = second := by
  induction first generalizing second with
  | nil =>
    cases second with
    | nil => rfl
    | cons item second =>
      rw [List.flatMap_nil, List.flatMap_cons] at same
      have empty := (List.append_eq_nil_iff.mp same.symm).1
      exact (filled item (validSecond item (.head _)) empty).elim
  | cons item first ih =>
    cases second with
    | nil =>
      rw [List.flatMap_nil, List.flatMap_cons] at same
      have empty := (List.append_eq_nil_iff.mp same).1
      exact (filled item (validFirst item (.head _)) empty).elim
    | cons other second =>
      obtain ⟨validItem, validRest⟩ := List.forall_mem_cons.mp validFirst
      obtain ⟨validOther, validOthers⟩ := List.forall_mem_cons.mp validSecond
      rw [List.flatMap_cons, List.flatMap_cons] at same
      obtain ⟨rfl, rest⟩ := delimiting _ _ _ _ validItem validOther same
      rw [ih validRest validOthers rest]

end

section

variable {α : Type} {valid : α → Prop} {write : α → String}

theorem toList_iff :
    SelfDelimiting valid (fun item => (write item).toList) ↔ SelfDelimiting valid write := by
  constructor
  · intro delimiting first second after behind validFirst validSecond same
    have chars := congrArg String.toList same
    rw [String.toList_append, String.toList_append] at chars
    obtain ⟨items, rests⟩ := delimiting _ _ _ _ validFirst validSecond chars
    exact ⟨items, String.toList_inj.mp rests⟩
  · intro delimiting first second after behind validFirst validSecond same
    have texts : write first ++ String.ofList after = write second ++ String.ofList behind := by
      rw [← String.toList_inj]
      simpa using same
    obtain ⟨items, rests⟩ := delimiting _ _ _ _ validFirst validSecond texts
    exact ⟨items, String.ofList_inj.mp rests⟩

theorem inj (delimiting : SelfDelimiting valid write) {first second : α} (validFirst : valid first)
    (validSecond : valid second) (same : write first = write second) : first = second := by
  have empty : write first ++ "" = write second ++ "" := by rw [same]
  exact (delimiting _ _ _ _ validFirst validSecond empty).1

theorem join_closed (delimiting : SelfDelimiting valid write) {start stop : Char} {closing : String}
    (begins : ∀ item, Heads start (write item)) (closes : Heads stop closing)
    (differ : start ≠ stop) :
    SelfDelimiting (fun items => ∀ item ∈ items, valid item)
      fun items : List α => String.join (items.map write) ++ closing := by
  have apart : ∀ item, valid item → ∀ after behind,
      (write item).toList ++ after ≠ closing.toList ++ behind := by
    intro item _ after behind same
    have texts : write item ++ String.ofList after = closing ++ String.ofList behind := by
      rw [← String.toList_inj]
      simpa using same
    exact ((begins item).append _).ne (closes.append _) differ texts
  have lists := (toList_iff.mpr delimiting).flatMap_closed apart
  rw [← toList_iff]
  simpa [String.toList_join, List.flatMap_map] using lists

end

end SelfDelimiting

theorem intercalate_cons_eq_join (separator text : String) (rest : List String) :
    separator.intercalate (text :: rest) =
      text ++ String.join (rest.map fun next => separator ++ next) := by
  induction rest generalizing text with
  | nil => simp
  | cons next rest ih =>
    rw [String.intercalate_cons_cons, ih, List.map_cons, String.join_cons, String.append_assoc,
      String.append_assoc]

section Joined

variable {property : String → Prop} (empty : property "")
  (append : ∀ {first second : String}, property first → property second →
    property (first ++ second))

include empty append

/-- What holds of texts and of their concatenations holds of all of them together. -/
theorem join_of_forall {texts : List String} (each : ∀ text ∈ texts, property text) :
    property (String.join texts) := by
  induction texts with
  | nil => exact empty
  | cons text rest ih =>
    obtain ⟨first, others⟩ := List.forall_mem_cons.mp each
    rw [String.join_cons]
    exact append first (ih others)

theorem intercalate_of_forall {separator : String} {texts : List String}
    (between : property separator) (each : ∀ text ∈ texts, property text) :
    property (separator.intercalate texts) := by
  cases texts with
  | nil => rwa [String.intercalate_nil]
  | cons text rest =>
    obtain ⟨first, others⟩ := List.forall_mem_cons.mp each
    rw [intercalate_cons_eq_join]
    refine append first (join_of_forall empty append (List.forall_mem_map.mpr ?_))
    exact fun next member => append between (others next member)

end Joined

/-- Items that delimit themselves, between commas and up to a closing text that begins neither an
item nor a further one. -/
theorem SelfDelimiting.intercalate {α : Type} {valid : α → Prop} {write : α → String}
    (delimiting : SelfDelimiting valid write) {start stop : Char} {closing : String}
    (begins : ∀ item, Heads start (write item)) (closes : Heads stop closing)
    (noStart : start ≠ stop) (noComma : ',' ≠ stop) :
    SelfDelimiting (fun items => ∀ item ∈ items, valid item)
      fun items : List α => ",".intercalate (items.map write) ++ closing := by
  -- Behind the first item stand commas, each with one more item.
  have followers : SelfDelimiting (fun items => ∀ item ∈ items, valid item)
      fun items : List α => String.join (items.map fun item => "," ++ write item) ++ closing := by
    have comma : Heads ',' "," := heads_ofList rfl
    apply join_closed _ (fun item => comma.append (write item)) closes noComma
    intro first second after behind validFirst validSecond same
    simp only [String.append_assoc, String.append_right_inj] at same
    exact delimiting _ _ _ _ validFirst validSecond same
  intro first second after behind validFirst validSecond same
  simp only [String.append_assoc] at same
  cases first with
  | nil =>
    cases second with
    | nil => exact ⟨rfl, (String.append_right_inj _).mp ((String.append_right_inj _).mp same)⟩
    | cons item second =>
      rw [List.map_nil, String.intercalate_nil, String.empty_append, List.map_cons,
        intercalate_cons_eq_join, String.append_assoc] at same
      exact (((begins item).append _).ne (closes.append _) noStart same.symm).elim
  | cons item first =>
    cases second with
    | nil =>
      rw [List.map_nil, String.intercalate_nil, String.empty_append, List.map_cons,
        intercalate_cons_eq_join, String.append_assoc] at same
      exact (((begins item).append _).ne (closes.append _) noStart same).elim
    | cons other second =>
      obtain ⟨validItem, validRest⟩ := List.forall_mem_cons.mp validFirst
      obtain ⟨validOther, validOthers⟩ := List.forall_mem_cons.mp validSecond
      simp only [List.map_cons, intercalate_cons_eq_join, List.map_map, String.append_assoc] at same
      obtain ⟨rfl, rest⟩ := delimiting _ _ _ _ validItem validOther same
      simp only [← String.append_assoc] at rest
      obtain ⟨rfl, ends⟩ := followers first second after behind validRest validOthers rest
      exact ⟨rfl, ends⟩

end Pagewright
