import Mathlib
import SourceShelf.Command.Actions
import SourceShelf.Proofs.Chunk.Stream
import SourceShelf.Proofs.Command.Kept

/-!
# The two outputs of `chunkFile`

The chunks of a file are written on the session's output or to a file.  Both ways read the source
first, so that one which is none changes nothing, and write the same text.

* `unitIn_eq_error_iff`: the files that are no sources.
* `runOn_readUnit`, `runOn_unitChunks`: the steps that both ways share.
* `chunkFile_outputs_agree`: what both ways do.
-/

namespace SourceShelf

open Files SourceShelf.Action

/-- The name of a format. -/
def ChunkFormat.name : ChunkFormat → String
  | text => "text"
  | jsonLines => "jsonl"

theorem ChunkFormat.ofName?_name (f : ChunkFormat) : ofName? f.name = some f := by
  cases f <;> rfl

/-! ## Reading the source -/

/-- The unit in a file, or why there is none. -/
def unitIn (t : Disk FileContent) (path : Path) (o : ChunkOptions) :
    Except Failure Java.CompilationUnit :=
  (SourceText.load FileContent.toBytes t path).bind fun source =>
    Java.parse source.text (some path.text) o.includeLocalTypes

theorem unitIn_eq_ok {t : Disk FileContent} {path : Path} {o : ChunkOptions}
    {u : Java.CompilationUnit} (h : unitIn t path o = .ok u) :
    ∃ source, SourceText.load FileContent.toBytes t path = .ok source ∧
      Java.parse source.text (some path.text) o.includeLocalTypes = .ok u := by
  unfold unitIn at h
  rcases hload : SourceText.load FileContent.toBytes t path with e | source
  · rw [hload] at h
    cases h
  · rw [hload] at h
    exact ⟨source, rfl, h⟩

theorem unitIn_eq_error {t : Disk FileContent} {path : Path} {o : ChunkOptions} {f : Failure}
    (h : unitIn t path o = .error f) :
    SourceText.load FileContent.toBytes t path = .error f ∨
      ∃ source, SourceText.load FileContent.toBytes t path = .ok source ∧
        Java.parse source.text (some path.text) o.includeLocalTypes = .error f := by
  unfold unitIn at h
  rcases hload : SourceText.load FileContent.toBytes t path with e | source
  · rw [hload] at h
    cases h
    exact .inl rfl
  · rw [hload] at h
    exact .inr ⟨source, rfl, h⟩

/-- A file is no source when it cannot be read, when it is binary or when its text is no Java. -/
theorem unitIn_eq_error_iff {t : Disk FileContent} {path : Path} {o : ChunkOptions} {f : Failure} :
    unitIn t path o = .error f ↔
      (∃ e, t.read path = .error e ∧
        f = .read ("Cannot read source file: " ++ e.text) path.text) ∨
      ∃ content, t.read path = .ok content ∧
        (isProbablyBinary content.toBytes = true ∧
            f = .read "Binary file detected" path.text ∨
          isProbablyBinary content.toBytes = false ∧
            Java.parse (decodeSource content.toBytes).text (some path.text) o.includeLocalTypes =
              .error f) := by
  unfold unitIn SourceText.load
  rcases t.read path with e | content
  · constructor
    · intro h
      exact .inl ⟨e, rfl, (Except.error.inj h).symm⟩
    · rintro (⟨e', he, rfl⟩ | ⟨content, hcontent, -⟩)
      · cases he
        rfl
      · cases hcontent
  · have hbytes : SourceText.ofBytes path.text none content.toBytes =
        if isProbablyBinary content.toBytes then .error (.read "Binary file detected" path.text)
        else .ok (decodeSource content.toBytes) := rfl
    dsimp only
    rw [hbytes]
    cases hbinary : isProbablyBinary content.toBytes with
    | true =>
      rw [if_pos rfl]
      constructor
      · intro h
        exact .inr ⟨content, rfl, .inl ⟨hbinary, (Except.error.inj h).symm⟩⟩
      · rintro (⟨e, he, -⟩ | ⟨c, hc, ⟨-, rfl⟩ | ⟨htext, -⟩⟩)
        · cases he
        · rfl
        · cases hc
          rw [hbinary] at htext
          cases htext
    | false =>
      rw [if_neg Bool.false_ne_true]
      constructor
      · intro h
        exact .inr ⟨content, rfl, .inr ⟨hbinary, h⟩⟩
      · rintro (⟨e, he, -⟩ | ⟨c, hc, ⟨htrue, -⟩ | ⟨-, hparse⟩⟩)
        · cases he
        · cases hc
          rw [hbinary] at htrue
          cases htrue
        · cases hc
          exact hparse

section Steps

variable {τ : Type} {s : Session τ} {path : Path} {o : ChunkOptions} {u : Java.CompilationUnit}

theorem runOn_readUnit_error {f : Failure} (h : unitIn s.disk path o = .error f) :
    (readUnit path o).runOn s = (.error (.failure f), s) := by
  unfold readUnit
  rw [runOn_bind_of_ok (runOn_get s)]
  obtain hload | ⟨source, hload, hparse⟩ := unitIn_eq_error h
  · rw [hload]
    exact runOn_bind_of_error (Session.runOn_check_error _ f s) _
  · rw [hload, runOn_bind_of_ok (Session.runOn_check_ok _ source s), hparse]
    exact runOn_bind_of_error (Session.runOn_check_error _ f s) _

theorem runOn_readUnit_ok (h : unitIn s.disk path o = .ok u) :
    (readUnit path o).runOn s = (.ok u, { s with log := s.log ++ [unitRecord u] }) := by
  unfold readUnit
  obtain ⟨source, hload, hparse⟩ := unitIn_eq_ok h
  rw [runOn_bind_of_ok (runOn_get s), hload, runOn_bind_of_ok (Session.runOn_check_ok _ source s),
    hparse, runOn_bind_of_ok (Session.runOn_check_ok _ u s)]
  rfl

/-- A unit that was read has chunks. -/
theorem toExcept_chunks_of_unitIn {t : Disk FileContent} (h : unitIn t path o = .ok u) :
    (u.chunks o).toExcept = .ok (u.chunks o).chunks := by
  obtain ⟨source, -, hparse⟩ := unitIn_eq_ok h
  rw [Java.chunks_eq_of_parse hparse]
  rfl

theorem runOn_unitChunks {t : Disk FileContent} (h : unitIn t path o = .ok u) (s : Session τ) :
    (unitChunks u o).runOn s = (.ok (u.chunks o).chunks,
      { s with log := s.log ++ [emissionRecord (u.chunks o).chunks.length u.path] }) := by
  unfold unitChunks
  rw [toExcept_chunks_of_unitIn h, runOn_bind_of_ok (Session.runOn_check_ok _ _ s)]
  rfl

end Steps

/-! ## Writing the chunks -/

section Outputs

variable {τ : Type} {s : Session τ} {path file : String} {format : ChunkFormat}
  {memberImports : Bool} {u : Java.CompilationUnit}

/-- A file that is no source is refused, whatever the output is, and nothing else happens. -/
theorem runOn_chunkFile_error {f : Failure}
    (h : unitIn s.disk (Path.ofString path) { memberImports } = .error f) (output : Option String) :
    (chunkFile { path, format := format.name, output, memberImports }).runOn s =
      (.error (.failure f), s) := by
  unfold chunkFile
  rw [ChunkFormat.ofName?_name]
  exact runOn_bind_of_error (runOn_readUnit_error h) _

theorem runOn_chunkFile_none
    (h : unitIn s.disk (Path.ofString path) { memberImports } = .ok u) :
    (chunkFile { path, format := format.name, output := none, memberImports }).runOn s =
      (.ok (u.chunks { memberImports }).chunks.length,
        { s with
          output := s.output ++ writtenChunks format (u.chunks { memberImports }).chunks
          log := s.log ++ [unitRecord u,
            emissionRecord (u.chunks { memberImports }).chunks.length u.path,
            .info (toString (u.chunks { memberImports }).chunks.length ++
              " chunk(s) from " ++ path)] }) := by
  unfold chunkFile
  dsimp only
  rw [ChunkFormat.ofName?_name]
  dsimp only
  rw [runOn_bind_of_ok (runOn_readUnit_ok h), runOn_bind_of_ok (runOn_unitChunks h _),
    runOn_bind_of_ok (runOn_modify _ _), Session.report, runOn_bind_of_ok (runOn_modify _ _),
    runOn_pure]
  dsimp only
  rw [List.append_assoc, List.append_assoc]
  rfl

/-- A file that cannot be written stays as it is. -/
theorem runOn_chunkFile_some_error
    (h : unitIn s.disk (Path.ofString path) { memberImports } = .ok u) {e : FileError}
    {content : FileContent} (hwrite : s.disk.write file content = .error e) :
    (chunkFile { path, format := format.name, output := some file, memberImports }).runOn s =
      (.error (.file e file), { s with log := s.log ++ [unitRecord u] }) := by
  have hempty := Disk.write_eq_error hwrite (.bytes .empty)
  unfold chunkFile
  dsimp only
  rw [ChunkFormat.ofName?_name]
  dsimp only
  rw [runOn_bind_of_ok (runOn_readUnit_ok h)]
  exact runOn_bind_of_error
    (Session.runOn_writeFile_error (s := { s with log := s.log ++ [unitRecord u] }) hempty) _

/-- The file is written empty and then again with the chunks, which is as if it had been written
once. -/
theorem runOn_chunkFile_some_ok
    (h : unitIn s.disk (Path.ofString path) { memberImports } = .ok u) {t : Disk FileContent}
    (hwrite : s.disk.write file
      (.bytes (writtenChunks format (u.chunks { memberImports }).chunks).toUTF8) = .ok t) :
    (chunkFile { path, format := format.name, output := some file, memberImports }).runOn s =
      (.ok (u.chunks { memberImports }).chunks.length,
        { s with
          disk := t
          printed := s.printed ++ [.err ("Wrote " ++
            toString (u.chunks { memberImports }).chunks.length ++ " chunk(s) to " ++ file)]
          log := s.log ++ [unitRecord u,
            emissionRecord (u.chunks { memberImports }).chunks.length u.path] }) := by
  obtain ⟨t₁, hempty⟩ : ∃ t₁, s.disk.write file (.bytes .empty) = .ok t₁ := by
    rcases hempty : s.disk.write file (.bytes .empty) with e | t₁
    · rw [Disk.write_eq_error hempty] at hwrite
      cases hwrite
    · exact ⟨t₁, rfl⟩
  rw [← Disk.write_write hempty] at hwrite
  unfold chunkFile
  dsimp only
  rw [ChunkFormat.ofName?_name]
  dsimp only
  rw [runOn_bind_of_ok (runOn_readUnit_ok h),
    runOn_bind_of_ok
      (Session.runOn_writeFile_ok (s := { s with log := s.log ++ [unitRecord u] }) hempty),
    runOn_bind_of_ok (runOn_unitChunks h _),
    runOn_bind_of_ok (Session.runOn_writeFile_ok (s := { s with
      disk := t₁
      log := s.log ++ [unitRecord u] ++
        [emissionRecord (u.chunks { memberImports }).chunks.length u.path] }) hwrite),
    Session.print, runOn_bind_of_ok (runOn_modify _ _), runOn_pure]
  dsimp only
  rw [List.append_assoc]
  rfl

end Outputs

/-- Both outputs of `chunkFile` agree.  If there is no unit in the file, both ways fail with the
reason and change nothing.  If there is one, the text that is written on the session's output is
the text that the file holds afterwards, unless the disk takes no file there, and the count is the
same. -/
theorem chunkFile_outputs_agree {τ : Type} (s : Session τ) (path file : String)
    (format : ChunkFormat) (memberImports : Bool) :
    (∃ f, unitIn s.disk (Path.ofString path) { memberImports } = .error f ∧
      (chunkFile { path, format := format.name, output := none, memberImports }).runOn s =
        (.error (.failure f), s) ∧
      (chunkFile { path, format := format.name, output := some file, memberImports }).runOn s =
        (.error (.failure f), s)) ∨
    ∃ u chunks s₀ r s₁, unitIn s.disk (Path.ofString path) { memberImports } = .ok u ∧
      (u.chunks { memberImports }).toExcept = .ok chunks ∧
      (chunkFile { path, format := format.name, output := none, memberImports }).runOn s =
        (.ok chunks.length, s₀) ∧
      s₀.output = s.output ++ writtenChunks format chunks ∧ s₀.printed = s.printed ∧
      s₀.disk = s.disk ∧
      (chunkFile { path, format := format.name, output := some file, memberImports }).runOn s =
        (r, s₁) ∧
      s₁.output = s.output ∧
      ((∃ e, s.disk.write file (.bytes (writtenChunks format chunks).toUTF8) = .error e ∧
          r = .error (.file e file) ∧ s₁.printed = s.printed ∧ s₁.disk = s.disk) ∨
        s.disk.write file (.bytes (writtenChunks format chunks).toUTF8) = .ok s₁.disk ∧
          r = .ok chunks.length ∧ (∃ line, s₁.printed = s.printed ++ [.err line]) ∧
          s₁.disk.find file = .ok (.file (.bytes (writtenChunks format chunks).toUTF8))) := by
  rcases hunit : unitIn s.disk (Path.ofString path) { memberImports } with f | u
  · exact .inl ⟨f, rfl, runOn_chunkFile_error hunit none, runOn_chunkFile_error hunit (some file)⟩
  · have hchunks := toExcept_chunks_of_unitIn hunit
    refine .inr ?_
    rcases hwrite : s.disk.write file
      (.bytes (writtenChunks format (u.chunks { memberImports }).chunks).toUTF8) with e | t
    · exact ⟨u, _, _, _, _, rfl, hchunks, runOn_chunkFile_none hunit, rfl, rfl, rfl,
        runOn_chunkFile_some_error hunit hwrite, rfl, .inl ⟨e, hwrite, rfl, rfl, rfl⟩⟩
    · exact ⟨u, _, _, _, _, rfl, hchunks, runOn_chunkFile_none hunit, rfl, rfl, rfl,
        runOn_chunkFile_some_ok hunit hwrite, rfl,
        .inr ⟨hwrite, rfl, ⟨_, rfl⟩, Disk.find_write hwrite⟩⟩

end SourceShelf
