import Mathlib.Data.String.Basic
import SourceShelf.Proofs.Entries
import SourceShelf.Proofs.Files.Written
import SourceShelf.Proofs.Index.Manifest
import SourceShelf.Proofs.Json.Documents
import SourceShelf.Proofs.Json.Keys

/-!
# Manifests survive their files

* `Manifest.Distinct`: no file is listed twice.
* `Manifest.ofBytes_text`: what was saved is read back, with its files in order
  (`Manifest.arranged`).
* `Manifest.load_saved`: the file of a manifest tells the manifest, whatever the order
  of its files.
* `Manifest.distinct_load`: whatever the file holds, the manifest in it lists no
  file twice.
-/

namespace SourceShelf

open Json Files

namespace Manifest

/-- No file is listed twice. -/
def Distinct (m : Manifest) : Prop := (m.files.map Prod.fst).Nodup

/-- The order in which the files of a manifest are written. -/
def before (a b : String × String) : Bool := !(b.1 < a.1)

theorem before_iff {a b : String × String} : before a b = true ↔ a.1 ≤ b.1 := by
  rw [before, Bool.not_eq_true', decide_eq_false_iff_not, not_lt]

/-- A manifest with its files in the order in which they are written. -/
def arranged (m : Manifest) : Manifest := { m with files := m.files.mergeSort before }

theorem arranged_perm (m : Manifest) : m.arranged.files.Perm m.files := List.mergeSort_perm _ _

theorem Distinct.arranged {m : Manifest} (h : m.Distinct) : m.arranged.Distinct :=
  (m.arranged_perm.map Prod.fst).nodup_iff.mpr h

theorem pairwise_arranged (m : Manifest) :
    m.arranged.files.Pairwise fun a b => before a b = true := by
  refine List.pairwise_mergeSort (fun a b c hab hbc => ?_) (fun a b => ?_) _
  · rw [before_iff] at hab hbc ⊢
    exact le_trans hab hbc
  · rw [Bool.or_eq_true, before_iff, before_iff]
    exact le_total a.1 b.1

theorem arranged_arranged (m : Manifest) : m.arranged.arranged = m.arranged := by
  have hfiles : m.arranged.files.mergeSort before = m.arranged.files :=
    List.mergeSort_of_pairwise m.pairwise_arranged
  rw [arranged, hfiles]

theorem digest?_eq_some {m : Manifest} (h : m.Distinct) {path digest : String} :
    m.digest? path = some digest ↔ (path, digest) ∈ m.files :=
  lookup_eq_some_iff h

/-- The order of the files makes no difference to what is found. -/
theorem digest?_arranged {m : Manifest} (h : m.Distinct) (path : String) :
    m.arranged.digest? path = m.digest? path := by
  refine Option.ext fun digest => ?_
  rw [digest?_eq_some h.arranged, digest?_eq_some h, m.arranged_perm.mem_iff]

/-- Manifests that name the same embedder and the same digest for every file. -/
structure Agrees (m n : Manifest) : Prop where
  embedder : m.embedder = n.embedder
  digest? : ∀ file, m.digest? file = n.digest? file

/-- What agrees is written in one order. -/
theorem Agrees.arranged {m n : Manifest} (h : m.Agrees n) (hm : m.Distinct) (hn : n.Distinct) :
    m.arranged = n.arranged := by
  have hperm : m.arranged.files.Perm n.arranged.files := by
    have hlisted : m.files.Perm n.files := by
      refine (List.perm_ext_iff_of_nodup (hm.of_map _) (hn.of_map _)).mpr fun e => ?_
      rw [← digest?_eq_some hm, ← digest?_eq_some hn, h.digest?]
    exact (m.arranged_perm.trans hlisted).trans n.arranged_perm.symm
  -- two entries of one file are the same entry, so there is one way to sort them
  have hfiles : m.arranged.files = n.arranged.files := by
    refine hperm.eq_of_pairwise (fun a b ha hb hab hba => ?_) m.pairwise_arranged
      n.pairwise_arranged
    have hfile : a.1 = b.1 := le_antisymm (before_iff.mp hab) (before_iff.mp hba)
    have hdigest := (digest?_eq_some hm.arranged).mpr (hperm.mem_iff.mpr hb)
    rw [← hfile, (digest?_eq_some hm.arranged).mpr ha, Option.some.injEq] at hdigest
    exact Prod.ext hfile hdigest
  cases hm' : m.arranged
  cases hn' : n.arranged
  have hembedder : m.arranged.embedder = n.arranged.embedder := h.embedder
  rw [hm', hn'] at hembedder hfiles
  rw [Manifest.mk.injEq]
  exact ⟨hembedder, hfiles⟩

theorem agrees_arranged {m : Manifest} (h : m.Distinct) : m.arranged.Agrees m where
  embedder := rfl
  digest? := digest?_arranged h

/-! ## The text of a manifest -/

theorem entryTexts_strings (l : Layout) (depth : Nat) (files : List (String × String)) :
    entryTexts l depth (files.map fun e => (e.1, .str e.2)) =
      files.map fun e => (e.1, stringText l.ascii e.2) := by
  induction files with
  | nil => rfl
  | cons e files ih =>
    rw [List.map_cons, entryTexts, ih, textAt]
    rfl

/-- The entries of the object that lists the files. -/
def fileTexts (m : Manifest) : List (String × String) :=
  m.arranged.files.map fun e => (e.1, stringText true e.2)

theorem arranged_entryTexts (m : Manifest) (depth : Nat) :
    Json.arranged .document
        (entryTexts .document depth (m.files.map fun e => (e.1, .str e.2))) = m.fileTexts := by
  rw [entryTexts_strings]
  exact (List.map_mergeSort (r := before) (s := before)
    (f := fun e => (e.1, stringText true e.2)) (l := m.files) fun a _ b _ => rfl).symm

/-- The text of a manifest: the embedder, then the files in order. -/
theorem text_eq (m : Manifest) :
    m.text = bracketed .document "\x7b" "\x7d" 0
      ([("embedder", stringText true m.embedder),
        ("files", bracketed .document "\x7b" "\x7d" 1 (m.fileTexts.map (entryText true)))].map
          (entryText true)) := by
  have hfiles : textAt .document 1 (.obj (m.files.map fun e => (e.1, .str e.2))) =
      bracketed .document "\x7b" "\x7d" 1 (m.fileTexts.map (entryText true)) := by
    rw [textAt, arranged_entryTexts]
    rfl
  have hsorted (a b : String) :
      Json.arranged .document [("embedder", a), ("files", b)] =
        [("embedder", a), ("files", b)] := by
    have hbefore : before ("embedder", a) ("files", b) = true := by
      have hkeys : ¬ "files" < "embedder" := by decide
      simp [before, hkeys]
    exact List.mergeSort_of_pairwise (List.pairwise_pair.mpr hbefore)
  rw [text, Layout.text, toJson, textAt, entryTexts, entryTexts, entryTexts, hfiles, textAt,
    hsorted]
  rfl

theorem returnFree_text (m : Manifest) : ReturnFree m.text := by
  have hbrace : ReturnFree "\x7b" := by simp [ReturnFree]
  have hbrace' : ReturnFree "\x7d" := by simp [ReturnFree]
  have hcolon : ReturnFree ": " := by simp [ReturnFree]
  have hentry {e : String × String} (h : ReturnFree e.2) : ReturnFree (entryText true e) :=
    ((returnFree_stringText true e.1).append hcolon).append h
  rw [text_eq]
  refine returnFree_bracketed _ 0 hbrace hbrace' fun p hp => ?_
  simp only [List.map_cons, List.map_nil, List.mem_cons, List.not_mem_nil, or_false] at hp
  rcases hp with rfl | rfl
  · exact hentry (returnFree_stringText true _)
  · refine hentry (returnFree_bracketed _ 1 hbrace hbrace' fun p hp => ?_)
    obtain ⟨e, he, rfl⟩ := List.mem_map.mp hp
    obtain ⟨f, -, rfl⟩ := List.mem_map.mp he
    exact hentry (returnFree_stringText true _)

/-! ## Reading a manifest back -/

/-- The files are listed in an object in an object. -/
theorem reads_text (levels : Nat) (m : Manifest) (h : m.Distinct) :
    Reads (levels + 2) m.text.toList m.arranged.toJson := by
  have hstrings : List.Forall₂ (ReadsEntry levels) m.fileTexts
      (m.arranged.files.map fun e => (e.1, .str e.2)) := by
    rw [fileTexts, List.forall₂_map_left_iff, List.forall₂_map_right_iff]
    exact List.forall₂_same.mpr fun e _ => ⟨rfl, reads_stringText levels true e.2⟩
  have hkeys : (m.arranged.files.map fun e => (e.1, Value.str e.2)).map Prod.fst =
      m.arranged.files.map Prod.fst := by
    rw [List.map_map]
    rfl
  have hfiles := reads_bracketed .document 1 hstrings
  rw [Value.ofEntries_of_nodup (hkeys ▸ h.arranged)] at hfiles
  have hentries : List.Forall₂ (ReadsEntry (levels + 1))
      [("embedder", stringText true m.embedder),
        ("files", bracketed .document "\x7b" "\x7d" 1 (m.fileTexts.map (entryText true)))]
      [("embedder", .str m.embedder),
        ("files", .obj (m.arranged.files.map fun e => (e.1, .str e.2)))] :=
    .cons ⟨rfl, reads_stringText _ true m.embedder⟩ (.cons ⟨rfl, hfiles⟩ .nil)
  have hnames (a b : Value) : ([("embedder", a), ("files", b)].map Prod.fst).Nodup :=
    (by decide : ["embedder", "files"].Nodup)
  have hall := reads_bracketed .document 0 hentries
  rw [Value.ofEntries_of_nodup (hnames _ _)] at hall
  rw [text_eq]
  exact hall

theorem ofJson_toJson (m : Manifest) : ofJson m.toJson = m := by
  have hfiles : (m.files.map fun e => (e.1, Value.str e.2)).map (fun e => (e.1, plain e.2)) =
      m.files := by
    rw [List.map_map]
    exact List.map_id _
  have hget : m.toJson.get? "files" = some (.obj (m.files.map fun e => (e.1, .str e.2))) := rfl
  unfold ofJson
  rw [hget]
  dsimp only
  rw [hfiles]
  rfl

/-- A manifest is read back as it was saved, with its files in order. -/
theorem ofBytes_text {m : Manifest} (h : m.Distinct) (limit : NestingLimit) :
    ofBytes m.text.toUTF8 limit = .ok m.arranged := by
  have hmark : m.text.toList.head? ≠ some '\ufeff' := by
    rw [text_eq, head?_bracketed]
    decide
  obtain ⟨n, hn⟩ := limit.exists_levels
  have hread : readChars limit m.text.toList = .ok m.arranged.toJson :=
    readChars_of_reads (hn ▸ reads_text n m h) hmark
  rw [ofBytes, readDocument_toUTF8 (returnFree_text m) hread, Except.map, ofJson_toJson]

theorem text_arranged (m : Manifest) : m.arranged.text = m.text := by
  rw [text_eq, text_eq, fileTexts, fileTexts, arranged_arranged]
  rfl

section Files

variable {α : Type} {bytesOf : α → ByteArray} {t t' : Disk α} {place : Path} {content : α}
  {m : Manifest}

/-- What is loaded, by what stands at the place. -/
theorem load_eq (bytesOf : α → ByteArray) (t : Disk α) (path : Path) (limit : NestingLimit) :
    load bytesOf t path limit =
      match t.contentAt path with
      | .error e => .error e
      | .ok none => .ok ({}, [])
      | .ok (some content) =>
        match ofBytes (bytesOf content) limit with
        | .ok m => .ok (m, [])
        | .error e => e.reported.map fun text =>
            ({}, [.warning ("Manifest " ++ path.text ++
              " is unreadable, re-indexing everything: " ++ text)]) := by
  unfold load
  rcases t.contentAt path with e | (_ | content)
  · rfl
  · rfl
  · dsimp only [bind, Except.bind]
    rcases ofBytes (bytesOf content) limit with e | m
    · dsimp only
      cases e.reported <;> rfl
    · rfl

/-- What was saved is loaded, with its files in order. -/
theorem load_written (h : m.Distinct) (hcontent : bytesOf content = m.text.toUTF8)
    (hwrite : t.write place.text content = .ok t') (limit : NestingLimit) :
    load bytesOf t' place limit = .ok (m.arranged, []) := by
  have hfound : t'.contentAt place = .ok (some content) := by
    rw [Disk.contentAt, Disk.look, Disk.find_write hwrite]
  rw [load_eq, hfound]
  dsimp only
  rw [hcontent, ofBytes_text h]

/-- What was saved is loaded again: the same embedder and the same digest for every file,
without a report, whatever a reader can nest.  Saving that gives the same bytes, and so does
saving any manifest that agrees with it, in whatever order its files were entered. -/
theorem load_saved (h : m.Distinct) (hcontent : bytesOf content = m.text.toUTF8)
    (hwrite : t.write place.text content = .ok t') :
    ∃ m', (∀ limit, load bytesOf t' place limit = .ok (m', [])) ∧ m'.Agrees m ∧ m'.Distinct ∧
      m'.text.toUTF8 = bytesOf content ∧
      ∀ n : Manifest, n.Distinct → n.Agrees m → n.text.toUTF8 = bytesOf content := by
  refine ⟨m.arranged, load_written h hcontent hwrite, agrees_arranged h, h.arranged, ?_, ?_⟩
  · rw [text_arranged, hcontent]
  · intro n hn hagrees
    rw [hcontent, ← text_arranged n, hagrees.arranged hn h, text_arranged]

/-- Names with a quote, a line feed and a character that needs a surrogate pair. -/
theorem load_saved_hardNames :
    let m : Manifest := ⟨"o\"\n😀", [("b\x01\n.java", "2"), ("a😀\\.java", "1")]⟩
    m.Distinct ∧ ∃ (t' : Disk ByteArray) (m' : Manifest),
      ({} : Disk ByteArray).write (Path.text ⟨.relative, ["m"]⟩) m.text.toUTF8 = .ok t' ∧
      load id t' ⟨.relative, ["m"]⟩ = .ok (m', []) ∧ m'.Agrees m ∧
      m'.text.toUTF8 = m.text.toUTF8 := by
  intro m
  have hdistinct : m.Distinct := by
    have hnames : m.files.map Prod.fst = ["b\x01\n.java", "a😀\\.java"] := rfl
    rw [Distinct, hnames]
    decide
  have hwrite := Disk.write_first m.text.toUTF8
  have hbytes : id m.text.toUTF8 = m.text.toUTF8 := rfl
  obtain ⟨m', hload, hagrees, -, htext, -⟩ := load_saved hdistinct hbytes hwrite
  exact ⟨hdistinct, _, m', hwrite, hload _, hagrees, htext⟩

end Files

/-! ## Whatever a file holds -/

theorem distinct_ofJson {v : Value} (h : v.Tidy) : (ofJson v).Distinct := by
  have hempty : Distinct {} := List.nodup_nil
  unfold ofJson
  split
  · rename_i files hget
    cases h with
    | obj keys values =>
      obtain ⟨l, l', rfl, -⟩ := List.lookup_eq_some_iff.mp hget
      cases values _ (List.mem_append_right _ List.mem_cons_self) with
      | obj keys' _ =>
        have hkeys : (files.map fun e => (e.1, plain e.2)).map Prod.fst = files.map Prod.fst := by
          rw [List.map_map]
          rfl
        unfold Distinct
        rw [hkeys]
        exact keys'
    | _ => cases hget
  · exact hempty

theorem distinct_ofBytes {bytes : ByteArray} {limit : NestingLimit} {m : Manifest}
    (h : ofBytes bytes limit = .ok m) : m.Distinct := by
  unfold ofBytes readDocument at h
  split at h
  · cases h
  · rename_i s _
    dsimp only at h
    rcases hread : readChars limit (unifyLineEnds s.toList) with e | v
    · rw [hread] at h
      cases h
    · rw [hread] at h
      cases h
      exact distinct_ofJson (tidy_of_readChars hread)

/-- Whatever stands at the place of a manifest, the manifest that is loaded
lists no file twice. -/
theorem distinct_load {α : Type} {bytesOf : α → ByteArray} {t : Disk α} {path : Path}
    {limit : NestingLimit} {m : Manifest} {log : List LogRecord}
    (h : load bytesOf t path limit = .ok (m, log)) : m.Distinct := by
  have hempty : Distinct {} := List.nodup_nil
  rw [load_eq] at h
  rcases hcontent : t.contentAt path with e | (_ | content) <;> rw [hcontent] at h <;>
    dsimp only at h
  · cases h
  · cases h
    exact hempty
  · rcases hbytes : ofBytes (bytesOf content) limit with e | m' <;> rw [hbytes] at h <;>
      dsimp only at h
    · rcases hreported : e.reported with x | text <;> rw [hreported] at h <;> cases h
      exact hempty
    · cases h
      exact distinct_ofBytes hbytes

end Manifest

end SourceShelf
