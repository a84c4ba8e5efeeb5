import Pagewright.Build
import Pagewright.Proofs.FileTree

set_option autoImplicit false

namespace Pagewright

namespace Command

variable {α β : Type} {files after : Files}

/-- What stands behind a command goes on from its end. -/
theorem run_bind_of_on {command : Command (StateM Files) α} {result : Except Failure α}
    (ends : command.on files = (result, after)) (next : Except Failure α → StateM Files β) :
    (command.run >>= next).run files = (next result).run after := by
  unfold on at ends
  rw [StateT.run_bind, ends]
  rfl

theorem on_bind_of_ok {first : Command (StateM Files) α} {value : α}
    (succeeds : first.on files = (.ok value, after)) (next : α → Command (StateM Files) β) :
    (first >>= next).on files = (next value).on after :=
  run_bind_of_on succeeds (ExceptT.bindCont next)

theorem on_bind_of_error {first : Command (StateM Files) α} {failure : Failure}
    (fails : first.on files = (.error failure, after)) (next : α → Command (StateM Files) β) :
    (first >>= next).on files = (.error failure, after) :=
  run_bind_of_on fails (ExceptT.bindCont next)

theorem on_onFiles (operation : StateM Files (Except FileFault α)) (files : Files) :
    (onFiles operation).on files =
      ((operation.run files).1.mapError Failure.file, (operation.run files).2) := rfl

theorem on_onSource (result : Except Diagnostic α) (files : Files) :
    (onSource result : Command (StateM Files) α).on files =
      (result.mapError Failure.compile, files) := rfl

end Command

open Files

section Host

theorem on_readText (home : Option String) (files : Files) (path : String) :
    (Command.onFiles ((Files.host home).readText path)).on files =
      ((files.readText path).mapError Failure.file, files) := rfl

theorem on_readText_of_ok (home : Option String) {files : Files} {path text : String}
    (found : files.readText path = .ok text) :
    (Command.onFiles ((Files.host home).readText path)).on files = (.ok text, files) := by
  rw [on_readText, found]
  rfl

theorem on_readText_of_error (home : Option String) {files : Files} {path : String}
    {fault : FileFault} (failed : files.readText path = .error fault) :
    (Command.onFiles ((Files.host home).readText path)).on files =
      (.error (.file fault), files) := by
  rw [on_readText, failed]
  rfl

theorem on_createDirectories (home : Option String) (files : Files) (path : String) :
    (Command.onFiles ((Files.host home).createDirectories path)).on files =
      ((files.createDirectories path).1.mapError Failure.file, (files.createDirectories path).2) :=
  rfl

theorem on_writeText (home : Option String) (files : Files) (path text : String) :
    (Command.onFiles ((Files.host home).writeText path text)).on files =
      match files.write path text.toUTF8 with
      | .ok written => (.ok (), written)
      | .error fault => (.error (.file fault), files) := by
  have plain : ((Files.host home).writeText path text).run files =
      match files.write path text.toUTF8 with
      | .ok written => (.ok (), written)
      | .error fault => (.error fault, files) := rfl
  rw [Command.on_onFiles, plain]
  cases files.write path text.toUTF8 with
  | ok written => rfl
  | error fault => rfl

end Host

/-- A proper beginning of the path leads to the names. -/
def Files.Above (files : Files) (path : Path) (names : List String) : Prop :=
  ∃ front, front <+: path.components ∧ front ≠ path.components ∧
    front.foldl step (files.base path.absolute) = names

theorem Files.LeadsThrough.above {files : Files} {path : Path} {names : List String}
    (leads : files.LeadsThrough path.absolute path.components.dropLast names)
    (nonempty : path.components ≠ []) : files.Above path names := by
  obtain ⟨front, first, rfl⟩ := leads
  refine ⟨front, first.trans (List.dropLast_prefix _), ?_, rfl⟩
  rintro rfl
  have shorter := first.length_le
  have positive := List.length_pos_iff.mpr nonempty
  rw [List.length_dropLast] at shorter
  omega

/-- Making the directory of a path makes only directories above the path, and fails only where these
cannot be made. -/
theorem createParent_on (home : Option String) (files : Files) (path : String) :
    ∃ after, Grows (files.Above (.ofText path)) files after ∧
      ((createParent (Files.host home) path).on files = (.ok (), after) ∨
        ∃ fault parent, (createParent (Files.host home) path).on files =
            (.error (.file fault), after) ∧
          (Path.ofText path).parent? = some parent ∧
          files.createDirectories parent = (.error fault, after)) := by
  unfold createParent
  split
  · exact ⟨files, .refl _ _, .inl rfl⟩
  · rename_i parent within
    split
    · exact ⟨files, .refl _ _, .inl rfl⟩
    · have nonempty : (Path.ofText path).components ≠ [] := by
        intro none
        simp [Path.parent?, none] at within
      have text : Path.textOf (Path.ofText path).absolute (Path.ofText path).components.dropLast =
          parent := by
        simpa [Path.parent?, nonempty] using within
      obtain ⟨absolute, components⟩ := Path.ofText_textOf_dropLast path
      rw [text] at absolute components
      have grows := createDirectories_grows files parent
      rw [absolute, components] at grows
      refine ⟨_, grows.mono fun names leads => leads.above nonempty, ?_⟩
      rw [on_createDirectories]
      cases created : files.createDirectories parent with
      | mk result after =>
        cases result with
        | ok => exact .inl rfl
        | error fault => exact .inr ⟨fault, parent, rfl, within, created⟩

section Build

variable (home : Option String) {files : Files} {source text : String} {settings : Settings}

theorem build_on_of_unread {fault : FileFault} (failed : files.readText source = .error fault)
    (settings : Settings) :
    (build (Files.host home) source settings).on files = (.error (.file fault), files) :=
  Command.on_bind_of_error (on_readText_of_error home failed) _

theorem build_on_of_uncompiled {diagnostic : Diagnostic} (found : files.readText source = .ok text)
    (failed : compileFull settings text = .error diagnostic) :
    (build (Files.host home) source settings).on files = (.error (.compile diagnostic), files) := by
  unfold build
  rw [Command.on_bind_of_ok (on_readText_of_ok home found)]
  apply Command.on_bind_of_error
  rw [Command.on_onSource, failed]
  rfl

/-- A source that compiles leaves the directory and the document to be written. -/
theorem build_on_of_compiled {compilation : Compilation} (found : files.readText source = .ok text)
    (compiled : compileFull settings text = .ok compilation) :
    (build (Files.host home) source settings).on files =
      (do
        createParent (Files.host home) settings.output
        .onFiles ((Files.host home).writeText settings.output compilation.page.render)
        return compilation : Command (StateM Files) Compilation).on files := by
  have page : (Command.onSource (compileFull settings text) : Command (StateM Files) _).on files =
      (.ok compilation, files) := by
    rw [Command.on_onSource, compiled]
    rfl
  rw [build, Command.on_bind_of_ok (on_readText_of_ok home found), Command.on_bind_of_ok page]

/-- Why a document is not written: a directory above it cannot be made, or the document itself. -/
inductive Unwritten (files after : Files) (output : String) (document : ByteArray) :
    FileFault → Prop where
  | directory {parent : String} {fault : FileFault}
    (above : (Path.ofText output).parent? = some parent)
    (fails : files.createDirectories parent = (.error fault, after)) :
    Unwritten files after output document fault
  | document {fault : FileFault} (fails : after.write output document = .error fault) :
    Unwritten files after output document fault

/-- A build of a source that compiles fails on files before it writes, or writes its document as the
last thing. -/
theorem build_on_cases {compilation : Compilation} (found : files.readText source = .ok text)
    (compiled : compileFull settings text = .ok compilation) :
    ∃ between, Grows (files.Above (.ofText settings.output)) files between ∧
      ((∃ fault, (build (Files.host home) source settings).on files =
          (.error (.file fault), between) ∧
          Unwritten files between settings.output compilation.page.render.toUTF8 fault) ∨
        ∃ after, between.write settings.output compilation.page.render.toUTF8 = .ok after ∧
          (build (Files.host home) source settings).on files = (.ok compilation, after)) := by
  rw [build_on_of_compiled home found compiled]
  obtain ⟨between, grows, made | ⟨fault, parent, failed, above, unmade⟩⟩ :=
    createParent_on home files settings.output
  · refine ⟨between, grows, ?_⟩
    rw [Command.on_bind_of_ok made]
    have write := on_writeText home between settings.output compilation.page.render
    cases written : between.write settings.output compilation.page.render.toUTF8 with
    | error fault =>
      rw [written] at write
      exact .inl ⟨fault, Command.on_bind_of_error write _, .document written⟩
    | ok after =>
      rw [written] at write
      exact .inr ⟨after, rfl, Command.on_bind_of_ok write _⟩
  · exact ⟨between, grows, .inl ⟨fault, Command.on_bind_of_error failed _,
      .directory above unmade⟩⟩

/-- A build of a source that cannot be read or compiled changes nothing. Any other build only makes
directories above its output, and either fails because one of them or the document cannot be made,
or writes the page under that path. -/
theorem build_changes_output_only (home : Option String) (files : Files) (source : String)
    (settings : Settings) :
    (∀ fault, files.readText source = .error fault →
      (build (Files.host home) source settings).on files = (.error (.file fault), files)) ∧
    (∀ text diagnostic, files.readText source = .ok text →
      compileFull settings text = .error diagnostic →
      (build (Files.host home) source settings).on files = (.error (.compile diagnostic), files)) ∧
    ∀ text compilation, files.readText source = .ok text →
      compileFull settings text = .ok compilation →
      let output := Path.ofText settings.output
      ∃ after,
        (∃ fault, (build (Files.host home) source settings).on files =
            (.error (.file fault), after) ∧
          Unwritten files after settings.output compilation.page.render.toUTF8 fault ∧
          Grows (files.Above output) files after) ∨
        (build (Files.host home) source settings).on files = (.ok compilation, after) ∧
          after.readText settings.output = .ok compilation.page.render ∧
          after.get (files.target output) = some (.file compilation.page.render.toUTF8) ∧
          ∀ names, names ≠ files.target output →
            after.get names = files.get names ∨
              files.Above output names ∧ files.get names = none ∧
                after.get names = some .directory := by
  refine ⟨fun fault failed => build_on_of_unread home failed settings,
    fun text diagnostic => build_on_of_uncompiled home, ?_⟩
  intro text compilation found compiled output
  obtain ⟨between, grows, ⟨fault, failed, reason⟩ | ⟨after, written, succeeds⟩⟩ :=
    build_on_cases home found compiled
  · exact ⟨between, .inl ⟨fault, failed, reason, grows⟩⟩
  · obtain ⟨noDirectory, rfl, read⟩ := write_eq_ok written
    have there : between.target (.ofText settings.output) = files.target output := grows.target _
    have named : files.target output ≠ [] := by
      intro root
      rw [there, root] at noDirectory
      exact noDirectory rfl
    refine ⟨_, .inr ⟨succeeds, readText_of_read_eq_ok read, ?_, fun names other => ?_⟩⟩
    · rw [there, get_set_self named]
    · rw [there, get_set_of_ne other]
      exact grows.get names

/-- A source alone in the root. -/
def loneSource : Files := Files.empty.set ["page"] (some (.file "app \"A\"".toUTF8))

/-- The document goes over the source, along a directory that is not there. -/
def overSource : Settings := { output := "a/../page" }

theorem build_overSource : ∃ compilation after,
    compileFull overSource "app \"A\"" = .ok compilation ∧
    (build (Files.host none) "page" overSource).on loneSource = (.ok compilation, after) ∧
    after.readText "a/../page" = .ok compilation.page.render ∧
    after.get ["page"] = some (.file compilation.page.render.toUTF8) ∧
    after.get ["a"] = some .directory := by
  have read : loneSource.readText "page" = .ok "app \"A\"" := readText_of_read_eq_ok rfl
  have path : Path.ofText overSource.output = ⟨false, ["a", "..", "page"], false⟩ := rfl
  have target : loneSource.target (.ofText overSource.output) = ["page"] := by
    rw [path]
    rfl
  have compiles : (compileFull overSource "app \"A\"").isOk = true := by decide +kernel
  cases compiled : compileFull overSource "app \"A\"" with
  | error diagnostic =>
    rw [compiled] at compiles
    cases compiles
  | ok compilation =>
    -- The run itself: the directory, then the document.
    have made : (createParent (Files.host none) overSource.output).on loneSource =
        (.ok (), loneSource.set ["a"] (some .directory)) := rfl
    have found : (loneSource.set ["a"] (some .directory)).find ⟨false, ["a", "..", "page"], false⟩ =
        .ok (["page"], some (.file "app \"A\"".toUTF8)) := rfl
    have succeeds : ((build (Files.host none) "page" overSource).on loneSource).1 =
        .ok compilation ∧
        ((build (Files.host none) "page" overSource).on loneSource).2.get ["a"] =
          some .directory := by
      rw [build_on_of_compiled none read compiled, Command.on_bind_of_ok made]
      have write := on_writeText none (loneSource.set ["a"] (some .directory)) overSource.output
        compilation.page.render
      simp only [Files.write, path, found] at write
      rw [Command.on_bind_of_ok write]
      exact ⟨rfl, rfl⟩
    obtain ⟨-, -, built⟩ := build_changes_output_only none loneSource "page" overSource
    obtain ⟨after, ⟨fault, failed, -, -⟩ | ⟨run, again, written, -⟩⟩ :=
      built _ compilation read compiled
    · rw [failed] at succeeds
      cases succeeds.1
    · rw [run] at succeeds
      exact ⟨compilation, after, rfl, run, again, target ▸ written, succeeds.2⟩

end Build

end Pagewright
