import Pagewright.Proofs.Readers
import Pagewright.Proofs.StoreNames

set_option autoImplicit false

namespace Pagewright

namespace Schema

section Readers

variable {α : Type}

/-- The rest of a name behind its first quote, and the text behind the name. A quote that stands
twice is a character of the name. -/
def readNameRest : List Char → Option (List Char × List Char)
  | [] => none
  | '"' :: '"' :: rest => (readNameRest rest).map fun (name, back) => ('"' :: name, back)
  | '"' :: rest => some ([], rest)
  | c :: rest => (readNameRest rest).map fun (name, back) => (c :: name, back)

/-- A name between quotes, and the text behind it. -/
def readName : List Char → Option (String × List Char)
  | '"' :: rest => (readNameRest rest).map fun (name, back) => (String.ofList name, back)
  | _ => none

def inType (c : Char) : Bool := c != ',' && c != ')'

/-- A column and its type, which ends before a comma or a bracket. -/
def readColumn (text : List Char) : Option ((String × String) × List Char) := do
  let (name, rest) ← readName text
  let rest ← expect " " rest
  some ((name, String.ofList (rest.takeWhile inType)), rest.dropWhile inType)

/-- At least one item, each further one behind a comma. -/
def readListed (read : List Char → Option (α × List Char)) (text : List Char) :
    Option (List α × List Char) := do
  let (first, rest) ← read text
  let (others, rest) := readMany (fun text => (expect ", " text).bind read) rest
  some (first :: others, rest)

/-- The table that a statement makes, and its columns with their types. -/
def readCreate (statement : String) : Option (String × List (String × String)) := do
  let rest ← expect "CREATE TABLE IF NOT EXISTS " statement.toList
  let (table, rest) ← readName rest
  let rest ← expect "(" rest
  let (columns, rest) ← readListed readColumn rest
  if rest = [')'] then some (table, columns) else none

/-- The columns that a query selects, and the table that it reads. -/
def readSelect (query : String) : Option (List String × String) := do
  let rest ← expect "SELECT " query.toList
  let (columns, rest) ← readListed readName rest
  let rest ← expect " FROM " rest
  let (table, rest) ← readName rest
  if rest = [] then some (columns, table) else none

end Readers

theorem readNameRest_doubleQuotes (name : List Char) {rest : List Char}
    (stops : rest.head? ≠ some '"') :
    readNameRest (doubleQuotes name ++ '"' :: rest) = some (name, rest) := by
  induction name with
  | nil =>
    rw [doubleQuotes, List.flatMap_nil, List.nil_append, readNameRest]
    rintro more rfl
    exact stops rfl
  | cons c name ih =>
    rw [doubleQuotes, List.flatMap_cons, ← doubleQuotes]
    by_cases isQuote : c = '"'
    · subst isQuote
      exact congrArg _ ih
    · rw [if_neg isQuote, List.append_assoc, List.singleton_append, readNameRest, ih]
      · rfl
      · exact fun _ same _ => isQuote same
      · exact isQuote

theorem readName_quoteName (name : String) {rest : List Char} (stops : rest.head? ≠ some '"') :
    readName ((quoteName name).toList ++ rest) = some (name, rest) := by
  have spelling : (quoteName name).toList ++ rest =
      '"' :: (doubleQuotes name.toList ++ '"' :: rest) := by
    simp [quoteName, doubleQuotes]
  simp only [spelling, readName, readNameRest_doubleQuotes _ stops, Option.map_some,
    String.ofList_toList]

/-- The text begins with one of the marks. -/
def Follows (marks : List Char) (rest : List Char) : Prop := ∃ mark ∈ marks, rest.head? = some mark

theorem Follows.ne {marks rest : List Char} (follows : Follows marks rest) {c : Char}
    (other : c ∉ marks) : rest.head? ≠ some c := by
  obtain ⟨mark, listed, first⟩ := follows
  rintro same
  cases first.symm.trans same
  exact other listed

/-- A column as the statement that makes its table lists it. -/
def writeColumn (column : String × String) : List Char :=
  (quoteName column.1).toList ++ (" ".toList ++ column.2.toList)

theorem readColumn_writeColumn {column : String × String}
    (plain : ∀ c ∈ column.2.toList, inType c = true) {rest : List Char}
    (follows : Follows [',', ')'] rest) :
    readColumn (writeColumn column ++ rest) = some (column, rest) := by
  have named : readName ((quoteName column.1).toList ++ (" ".toList ++ (column.2.toList ++ rest))) =
      some (column.1, " ".toList ++ (column.2.toList ++ rest)) :=
    readName_quoteName column.1 (by simp)
  have stops : ∀ c ∈ rest.head?, inType c = false := by
    obtain ⟨mark, listed, first⟩ := follows
    rintro c found
    cases found.symm.trans first
    simpa [inType, or_iff_not_imp_left] using listed
  have run := run_append plain stops
  simp only [readColumn, writeColumn, List.append_assoc, named, expect_append, run.1, run.2,
    String.ofList_toList, Option.bind_eq_bind, Option.bind_some]

section Lists

variable {α : Type}

/-- Items as a statement lists them, between commas. -/
def writeListed (write : α → List Char) (first : α) (others : List α) : List Char :=
  write first ++ others.flatMap fun item => ", ".toList ++ write item

/-- Listed items are read back if each is, before a comma and before the end. -/
theorem readListed_writeListed {read : List Char → Option (α × List Char)}
    {write : α → List Char} (before : List Char → Prop) {first : α} {others : List α}
    {back : List Char}
    (reads : ∀ item ∈ first :: others, ∀ rest, before rest →
      read (write item ++ rest) = some (item, rest))
    (comma : ∀ rest, before (", ".toList ++ rest)) (ends : before back)
    (stops : expect ", " back = none) :
    readListed read (writeListed write first others ++ back) = some (first :: others, back) := by
  obtain ⟨readsFirst, readsOthers⟩ := List.forall_mem_cons.mp reads
  have further : readMany (fun text => (expect ", " text).bind read)
      (others.flatMap (fun item => ", ".toList ++ write item) ++ back) = (others, back) := by
    apply readMany_flatMap_before before _ (by simp) (by rw [stops]; rfl) _ ends
    · intro item member rest follows
      rw [List.append_assoc, expect_append, Option.bind_some, readsOthers item member rest follows]
    · intro item _ rest
      rw [List.append_assoc]
      exact comma _
  have next : before (others.flatMap (fun item => ", ".toList ++ write item) ++ back) := by
    cases others with
    | nil => exact ends
    | cons item others =>
      rw [List.flatMap_cons, List.append_assoc, List.append_assoc]
      exact comma _
  rw [writeListed, List.append_assoc]
  simp only [readListed, readsFirst _ next, further, Option.bind_eq_bind, Option.bind_some]

end Lists

/-- The key column and its type. -/
def typedKey : String × String := (keyColumn, "INTEGER PRIMARY KEY AUTOINCREMENT")

/-- The other columns and their types. -/
def typedFields (schema : Schema) : List (String × String) :=
  schema.fields.map fun field => (field, "TEXT")

theorem toList_create_eq (schema : Schema) :
    schema.create.toList =
      "CREATE TABLE IF NOT EXISTS ".toList ++ ((quoteName schema.name).toList ++
        ("(".toList ++ (writeListed writeColumn typedKey schema.typedFields ++ ")".toList))) := by
  rw [toList_create]
  simp [writeListed, writeColumn, typedKey, typedFields, List.flatMap_map, String.toList_join]

theorem inType_of_typed (schema : Schema) :
    ∀ column ∈ typedKey :: schema.typedFields, ∀ c ∈ column.2.toList, inType c = true := by
  have key : typedKey.2.toList.all inType = true := by decide
  have text : "TEXT".toList.all inType = true := by decide
  rw [List.forall_mem_cons, typedFields, List.forall_mem_map]
  exact ⟨List.all_eq_true.mp key, fun _ _ => List.all_eq_true.mp text⟩

theorem readCreate_create (schema : Schema) :
    readCreate schema.create = some (schema.name, typedKey :: schema.typedFields) := by
  have table : readName ((quoteName schema.name).toList ++ ("(".toList ++
      (writeListed writeColumn typedKey schema.typedFields ++ ")".toList))) =
      some (schema.name, "(".toList ++
        (writeListed writeColumn typedKey schema.typedFields ++ ")".toList)) :=
    readName_quoteName schema.name (by simp)
  have columns : readListed readColumn
      (writeListed writeColumn typedKey schema.typedFields ++ ")".toList) =
      some (typedKey :: schema.typedFields, ")".toList) :=
    readListed_writeListed (Follows [',', ')'])
      (fun column member _ => readColumn_writeColumn (schema.inType_of_typed column member))
      (fun _ => ⟨',', by decide, rfl⟩) ⟨')', by decide, rfl⟩ rfl
  rw [readCreate, toList_create_eq, expect_append]
  simp only [table, expect_append, columns, Option.bind_eq_bind, Option.bind_some]
  rfl

theorem toList_select_eq (schema : Schema) :
    schema.select.toList =
      "SELECT ".toList ++
        (writeListed (fun name => (quoteName name).toList) keyColumn schema.fields ++
          (" FROM ".toList ++ (quoteName schema.name).toList)) := by
  rw [toList_select]
  simp [writeListed, List.flatMap_map, String.toList_join]

theorem readSelect_select (schema : Schema) :
    readSelect schema.select = some (keyColumn :: schema.fields, schema.name) := by
  have columns : readListed readName
      (writeListed (fun name => (quoteName name).toList) keyColumn schema.fields ++
        (" FROM ".toList ++ (quoteName schema.name).toList)) =
      some (keyColumn :: schema.fields, " FROM ".toList ++ (quoteName schema.name).toList) :=
    readListed_writeListed (Follows [',', ' '])
      (fun name _ _ follows => readName_quoteName name (follows.ne (by decide)))
      (fun _ => ⟨',', by decide, rfl⟩) ⟨' ', by decide, rfl⟩ rfl
  have table : readName ((quoteName schema.name).toList ++ []) = some (schema.name, []) :=
    readName_quoteName schema.name (by simp)
  rw [List.append_nil] at table
  rw [readSelect, toList_select_eq, expect_append]
  simp only [columns, expect_append, table, Option.bind_eq_bind, Option.bind_some]
  rfl

/-- Read back, each statement gives the name of the table and its columns in order, the key first,
whatever the names are. So no statement belongs to two schemas. -/
theorem read_statements :
    (∀ schema : Schema,
      readCreate schema.create = some (schema.name,
        ("id", "INTEGER PRIMARY KEY AUTOINCREMENT") ::
          schema.fields.map fun field => (field, "TEXT")) ∧
      readSelect schema.select = some ("id" :: schema.fields, schema.name)) ∧
    Function.Injective create ∧ Function.Injective select := by
  refine ⟨fun schema => ⟨readCreate_create schema, readSelect_select schema⟩, ?_, ?_⟩
  · intro first second same
    have read := readCreate_create first
    rw [same, readCreate_create second] at read
    obtain ⟨names, columns⟩ := Prod.mk.inj (Option.some.inj read)
    have fields : second.fields = first.fields := by
      have texts := congrArg (List.map Prod.fst) (List.cons.inj columns).2
      simpa [typedFields, Function.comp_def] using texts
    rw [Schema.mk.injEq]
    exact ⟨names.symm, fields.symm⟩
  · intro first second same
    have read := readSelect_select first
    rw [same, readSelect_select second] at read
    obtain ⟨columns, names⟩ := Prod.mk.inj (Option.some.inj read)
    rw [Schema.mk.injEq]
    exact ⟨names.symm, (List.cons.inj columns).2.symm⟩

/-- Names that spell a separator, the end of a query and an empty name. -/
def imitatingSchema : Schema := ⟨"t\" FROM \"u", ["a\" TEXT, \"b", "", "), (", "\""]⟩

theorem read_imitatingSchema :
    readCreate imitatingSchema.create = some ("t\" FROM \"u",
      [("id", "INTEGER PRIMARY KEY AUTOINCREMENT"), ("a\" TEXT, \"b", "TEXT"), ("", "TEXT"),
        ("), (", "TEXT"), ("\"", "TEXT")]) ∧
    imitatingSchema.select ≠ Schema.select ⟨"u", ["a\" TEXT, \"b", "", "), (", "\""]⟩ :=
  ⟨(read_statements.1 imitatingSchema).1,
    fun same => absurd (read_statements.2.2 same) (by decide)⟩

end Schema

end Pagewright
