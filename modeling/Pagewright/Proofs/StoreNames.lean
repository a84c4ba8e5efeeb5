import Mathlib.Data.List.Nodup
import Pagewright.Proofs.Registry

set_option autoImplicit false

namespace Pagewright

open Text

/-- A name as the store compares it. -/
def foldCase (name : String) : String := String.ofList (name.toList.map Char.toLower)

/-- The names between quotes in the rest of a statement, of which the first may have been read in
part. A quote that stands twice in a name is one of its characters. -/
def quotedNames : Option (List Char) → List Char → List String
  | _, [] => []
  | none, '"' :: rest => quotedNames (some []) rest
  | none, _ :: rest => quotedNames none rest
  | some name, '"' :: '"' :: rest => quotedNames (some (name ++ ['"'])) rest
  | some name, '"' :: rest => String.ofList name :: quotedNames none rest
  | some name, c :: rest => quotedNames (some (name ++ [c])) rest

/-- The table that a statement makes. -/
def madeTable (statement : String) : String :=
  foldCase ((quotedNames none statement.toList).headD "")

/-- The columns that a statement gives to its table. -/
def madeColumns (statement : String) : List String :=
  (quotedNames none statement.toList).tail.map foldCase

/-- The store can make all tables of the statements: none has a column twice, and none is there
already. -/
structure Storable (statements : List String) : Prop where
  tables : (statements.map madeTable).Nodup
  columns : ∀ statement ∈ statements, (madeColumns statement).Nodup

/-- No two of the names differ only in case. -/
def CaseApart (names : List String) : Prop :=
  ∀ first ∈ names, ∀ second ∈ names, foldCase first = foldCase second → first = second

/-- The names of a program that the store has to tell apart differ in more than case. -/
structure NamesApart (nodes : List Node) : Prop where
  tables : CaseApart ((Node.subtreeAll nodes).filterMap Node.tableName?)
  columns : ∀ pos name fields, .table pos name fields ∈ Node.subtreeAll nodes →
    CaseApart ("id" :: fields.map Field.name)

namespace Schema

/-- All columns of a table, in the order of the statement that makes it. -/
def columns (schema : Schema) : List String := keyColumn :: schema.fields

section Reading

theorem quotedNames_plain {text : List Char} (plain : '"' ∉ text) (rest : List Char) :
    quotedNames none (text ++ rest) = quotedNames none rest := by
  induction text with
  | nil => rfl
  | cons c text ih =>
    rw [List.mem_cons, not_or] at plain
    rw [List.cons_append, quotedNames, ih plain.2]
    exact fun isQuote => plain.1 isQuote.symm

/-- A name as it stands between quotes. -/
def doubleQuotes (name : List Char) : List Char :=
  name.flatMap fun c => if c = '"' then ['"', '"'] else [c]

/-- A name is read to its end, if no further quote follows. -/
theorem quotedNames_name (read name rest : List Char) (stops : rest.head? ≠ some '"') :
    quotedNames (some read) (doubleQuotes name ++ '"' :: rest) =
      String.ofList (read ++ name) :: quotedNames none rest := by
  induction name generalizing read with
  | nil =>
    rw [doubleQuotes, List.flatMap_nil, List.nil_append, List.append_nil, quotedNames]
    rintro more rfl
    exact stops rfl
  | cons c name ih =>
    have longer : read ++ c :: name = read ++ [c] ++ name := by simp
    rw [doubleQuotes, List.flatMap_cons, ← doubleQuotes, longer]
    by_cases isQuote : c = '"'
    · subst isQuote
      exact ih _
    · rw [if_neg isQuote, List.append_assoc, List.singleton_append, quotedNames]
      · exact ih _
      · exact fun _ same _ => isQuote same
      · exact isQuote

theorem quotedNames_quoteName (name : String) {rest : List Char} (stops : rest.head? ≠ some '"') :
    quotedNames none ((quoteName name).toList ++ rest) = name :: quotedNames none rest := by
  have spelling : (quoteName name).toList ++ rest =
      '"' :: (doubleQuotes name.toList ++ '"' :: rest) := by
    simp [quoteName, doubleQuotes]
  rw [spelling, quotedNames, quotedNames_name _ _ _ stops, List.nil_append, String.ofList_toList]

theorem stops_of_heads {c : Char} {text : String} (heads : Heads c text) (noQuote : c ≠ '"')
    (rest : List Char) : (text.toList ++ rest).head? ≠ some '"' := by
  obtain ⟨more, spelling⟩ := List.head?_eq_some_iff.mp heads
  rw [spelling]
  exact fun same => noQuote (Option.some.inj same)

theorem stops_of_plain {front rest : List Char} (plain : '"' ∉ front)
    (stops : rest.head? ≠ some '"') : (front ++ rest).head? ≠ some '"' := by
  cases front with
  | nil => exact stops
  | cons c front =>
    intro same
    cases same
    exact plain (.head _)

/-- Columns, each behind a comma, begin with no quote. -/
theorem stops_fields (fields : List String) (suffix : String) {rest : List Char}
    (stops : rest.head? ≠ some '"') :
    ((String.join (fields.map fun field => ", " ++ (quoteName field ++ suffix))).toList ++
      rest).head? ≠ some '"' := by
  cases fields with
  | nil => exact stops
  | cons field fields =>
    rw [List.map_cons, String.join_cons, String.append_assoc]
    exact stops_of_heads ((heads_ofList rfl : Heads ',' ", ").append _) (by decide) rest

/-- What is written for columns names them, if no quote stands in the text behind each. -/
theorem quotedNames_fields (fields : List String) {suffix : String} {rest : List Char}
    (plain : '"' ∉ suffix.toList) (stops : rest.head? ≠ some '"') :
    quotedNames none ((String.join (fields.map fun field =>
        ", " ++ (quoteName field ++ suffix))).toList ++ rest) =
      fields ++ quotedNames none rest := by
  have comma : '"' ∉ ", ".toList := not_mem_ofList rfl
  induction fields with
  | nil => rfl
  | cons field fields ih =>
    have more := stops_of_plain plain (stops_fields fields suffix stops)
    rw [List.map_cons, String.join_cons, String.toList_append, String.toList_append,
      String.toList_append, List.append_assoc, List.append_assoc, List.append_assoc,
      quotedNames_plain comma, quotedNames_quoteName field more,
      quotedNames_plain plain, ih, List.cons_append]

theorem toList_create (schema : Schema) :
    schema.create.toList =
      "CREATE TABLE IF NOT EXISTS ".toList ++ ((quoteName schema.name).toList ++
        ("(".toList ++ ((quoteName keyColumn).toList ++
          (" INTEGER PRIMARY KEY AUTOINCREMENT".toList ++
            ((String.join (schema.fields.map fun field =>
              ", " ++ (quoteName field ++ " TEXT"))).toList ++ ")".toList))))) := by
  unfold create
  rw [intercalate_cons_eq_join, List.map_map]
  simp only [String.toList_append, List.append_assoc]
  rfl

/-- The statement names the table and its columns, and nothing else. -/
theorem quotedNames_create (schema : Schema) :
    quotedNames none schema.create.toList = schema.name :: schema.columns := by
  have opening : '"' ∉ "CREATE TABLE IF NOT EXISTS ".toList := not_mem_ofList rfl
  have bracket : '"' ∉ "(".toList := not_mem_ofList rfl
  have keyType : '"' ∉ " INTEGER PRIMARY KEY AUTOINCREMENT".toList := not_mem_ofList rfl
  have type : '"' ∉ " TEXT".toList := not_mem_ofList rfl
  have closing : quotedNames none ")".toList = [] := by decide
  have nameStops := stops_of_heads (heads_ofList rfl : Heads '(' "(") (by decide)
  have keyStops := stops_of_heads
    (heads_ofList rfl : Heads ' ' " INTEGER PRIMARY KEY AUTOINCREMENT") (by decide)
  rw [toList_create, quotedNames_plain opening, quotedNames_quoteName _ (nameStops _),
    quotedNames_plain bracket, quotedNames_quoteName _ (keyStops _), quotedNames_plain keyType,
    quotedNames_fields _ type (by decide), closing, List.append_nil, columns]

theorem toList_select (schema : Schema) :
    schema.select.toList =
      "SELECT ".toList ++ ((quoteName keyColumn).toList ++
        ((String.join (schema.fields.map fun field => ", " ++ (quoteName field ++ ""))).toList ++
          (" FROM ".toList ++ (quoteName schema.name).toList))) := by
  unfold select
  rw [intercalate_cons_eq_join, List.map_map]
  simp only [String.toList_append, List.append_assoc, String.append_empty]
  rfl

/-- The query names all columns of the table, then the table. -/
theorem quotedNames_select (schema : Schema) :
    quotedNames none schema.select.toList = schema.columns ++ [schema.name] := by
  have opening : '"' ∉ "SELECT ".toList := not_mem_ofList rfl
  have source : '"' ∉ " FROM ".toList := not_mem_ofList rfl
  have nothing : '"' ∉ "".toList := List.not_mem_nil
  have fromStops := stops_of_heads (heads_ofList rfl : Heads ' ' " FROM ") (by decide)
  have last : quotedNames none (quoteName schema.name).toList = [schema.name] := by
    have stops : ([] : List Char).head? ≠ some '"' := nofun
    rw [← List.append_nil (quoteName schema.name).toList, quotedNames_quoteName _ stops]
    rfl
  rw [toList_select, quotedNames_plain opening,
    quotedNames_quoteName _ (stops_fields _ _ (fromStops _)),
    quotedNames_fields _ nothing (fromStops _), quotedNames_plain source, last, columns,
    List.cons_append]

end Reading

/-- A table that declares no field has one all the same, which is no key. -/
theorem nodup_columns_declared (name : String) {fields : List String}
    (distinct : ("id" :: fields).Nodup) : (declared name fields).columns.Nodup := by
  cases fields with
  | nil => exact (by decide : ["id", "text"].Nodup)
  | cons field fields => exact distinct

theorem caseApart_columns_declared (name : String) (fields : List String) :
    CaseApart (declared name fields).columns ↔ CaseApart ("id" :: fields) := by
  cases fields with
  | nil =>
    have default : CaseApart ["id", "text"] := by
      unfold CaseApart
      decide
    have alone : CaseApart ["id"] := by
      unfold CaseApart
      decide
    exact iff_of_true default alone
  | cons field fields => exact Iff.rfl

end Schema

/-- The statements that make tables are storable if the store tells their names apart. -/
theorem storable_create_iff {tables : List Schema} (names : (tables.map Schema.name).Nodup)
    (columns : ∀ table ∈ tables, table.columns.Nodup) :
    Storable (tables.map Schema.create) ↔
      CaseApart (tables.map Schema.name) ∧ ∀ table ∈ tables, CaseApart table.columns := by
  have made : (tables.map Schema.create).map madeTable = (tables.map Schema.name).map foldCase := by
    rw [List.map_map, List.map_map]
    refine List.map_congr_left fun table _ => ?_
    rw [Function.comp_apply, madeTable, table.quotedNames_create]
    rfl
  have madeEach : ∀ table : Schema, madeColumns table.create = table.columns.map foldCase := by
    intro table
    rw [madeColumns, table.quotedNames_create, List.tail_cons]
  have tablesIff := List.nodup_map_iff_inj_on (f := foldCase) names
  have columnsIff := fun table member =>
    List.nodup_map_iff_inj_on (f := foldCase) (columns table member)
  constructor
  · intro storable
    refine ⟨tablesIff.mp (made ▸ storable.tables), fun table member => ?_⟩
    apply (columnsIff table member).mp
    rw [← madeEach]
    exact storable.columns _ (List.mem_map_of_mem member)
  · rintro ⟨apart, each⟩
    refine ⟨made ▸ tablesIff.mpr apart, List.forall_mem_map.mpr fun table member => ?_⟩
    rw [madeEach]
    exact (columnsIff table member).mpr (each table member)

/-- The checks keep tables and columns apart by their names as they are. -/
theorem generate_tables_distinct {settings : Settings} {nodes : List Node} {page : Page}
    (checked : settings.checkTables = true) (success : generate settings nodes = .ok page) :
    (page.bootstrap.tables.map Schema.name).Nodup ∧
      ∀ table ∈ page.bootstrap.tables, table.columns.Nodup := by
  obtain ⟨-, declared, rfl⟩ := (generate_eq_ok_iff_livePage settings nodes page).mp success
  replace declared := declared checked
  constructor
  · have names := declared.tables
    rwa [declaredTables, ← schemas_names] at names
  · intro table member
    obtain ⟨pos, name, fields, live, rfl⟩ := (mem_schema?_iff _ _).mp member
    apply Schema.nodup_columns_declared
    refine List.nodup_cons.mpr ⟨fun isKey => ?_, declared.fields pos name fields live⟩
    obtain ⟨field, among, same⟩ := List.mem_map.mp isKey
    exact declared.noKeyField pos name fields live field among same

/-- The page of a checked program repeats no table and no column, the key included, as the program
writes their names. But the store can make its tables only if no two of these names differ in case
alone. -/
theorem compile_storeNames {settings : Settings} {source : String} {page : Page}
    (checked : settings.checkTables = true) (success : compile settings source = .ok page) :
    ∃ nodes, parse settings.mode source = .ok nodes ∧
      (page.bootstrap.tables.map Schema.name).Nodup ∧
      (∀ table ∈ page.bootstrap.tables, ("id" :: table.fields).Nodup) ∧
      (Storable (page.bootstrap.tables.map Schema.create) ↔ NamesApart nodes) := by
  obtain ⟨nodes, parsed, tables, -, -⟩ := compile_declarations success
  obtain ⟨_, -, generated⟩ := (compile_eq_ok_iff settings source page).mp success
  obtain ⟨names, columns⟩ := generate_tables_distinct checked generated
  refine ⟨nodes, parsed, names, columns, ?_⟩
  rw [storable_create_iff names columns, tables, schemas_names]
  constructor
  · rintro ⟨apart, each⟩
    refine ⟨apart, fun pos name fields member => ?_⟩
    rw [← Schema.caseApart_columns_declared name]
    exact each _ ((mem_schema?_iff _ _).mpr ⟨pos, name, fields, member, rfl⟩)
  · intro apart
    refine ⟨apart.tables, fun table member => ?_⟩
    obtain ⟨pos, name, fields, declared, rfl⟩ := (mem_schema?_iff _ _).mp member
    exact (Schema.caseApart_columns_declared name _).mpr (apart.columns pos name fields declared)

/-- Names that differ in the case of a letter that is not ASCII, and a table without fields. -/
def accentedProgram : String := "table t \x7b ä Ä \x7d db \x7b table u \x7b \x7d \x7d"

theorem compile_accentedProgram : ∃ page nodes, compile {} accentedProgram = .ok page ∧
    parse .permissive accentedProgram = .ok nodes ∧
    page.bootstrap.tables.map Schema.columns = [["id", "ä", "Ä"], ["id", "text"]] ∧
    Storable (page.bootstrap.tables.map Schema.create) ∧ NamesApart nodes := by
  obtain ⟨page, success, parts⟩ := exists_page_of_any (by decide +kernel :
    (compile {} accentedProgram).toOption.any (fun page =>
      page.bootstrap.tables == [⟨"t", ["ä", "Ä"]⟩, ⟨"u", ["text"]⟩]) = true)
  obtain ⟨nodes, parsed, -, -, storableIff⟩ := compile_storeNames rfl success
  rw [beq_iff_eq.mp parts] at storableIff
  have storable : Storable ([⟨"t", ["ä", "Ä"]⟩, ⟨"u", ["text"]⟩].map Schema.create) :=
    ⟨by decide +kernel, by decide +kernel⟩
  refine ⟨page, nodes, success, parsed, ?_, ?_, storableIff.mp storable⟩
  · rw [beq_iff_eq.mp parts]
    rfl
  · rw [beq_iff_eq.mp parts]
    exact storable

/-- Checked programs with a page whose tables the store cannot make: it would have a second key in
the first, and has the second table of the other already. -/
theorem not_storable_caseTwins :
    (∃ page, compile {} "table t \x7b ID \x7d" = .ok page ∧
      ¬ Storable (page.bootstrap.tables.map Schema.create)) ∧
    ∃ page, compile {} "table Notes \x7b \x7d table notes \x7b \x7d" = .ok page ∧
      ¬ Storable (page.bootstrap.tables.map Schema.create) := by
  constructor
  · obtain ⟨page, success, parts⟩ := exists_page_of_any (by decide +kernel :
      (compile {} "table t \x7b ID \x7d").toOption.any (fun page =>
        page.bootstrap.tables == [⟨"t", ["ID"]⟩]) = true)
    have twice : ¬ (madeColumns (Schema.create ⟨"t", ["ID"]⟩)).Nodup := by decide +kernel
    refine ⟨page, success, fun storable => ?_⟩
    rw [beq_iff_eq.mp parts] at storable
    exact twice (storable.columns _ (.head _))
  · obtain ⟨page, success, parts⟩ := exists_page_of_any (by decide +kernel :
      (compile {} "table Notes \x7b \x7d table notes \x7b \x7d").toOption.any (fun page =>
        page.bootstrap.tables == [⟨"Notes", ["text"]⟩, ⟨"notes", ["text"]⟩]) = true)
    have twice : ¬ (([⟨"Notes", ["text"]⟩, ⟨"notes", ["text"]⟩].map Schema.create).map
        madeTable).Nodup := by decide +kernel
    refine ⟨page, success, fun storable => ?_⟩
    rw [beq_iff_eq.mp parts] at storable
    exact twice storable.tables

end Pagewright
