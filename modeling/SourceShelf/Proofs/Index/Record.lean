import Mathlib.Data.List.Forall2
import SourceShelf.Index.Sink
import SourceShelf.Proofs.Store.Rows
import SourceShelf.Proofs.Text.Pieces

/-!
# Records of chunks

What a chunk that waits becomes in the store.

* `ChunkRecord.identity_inj`: identities tell files and places apart.
* `ChunkRecord.fields_of_identity_eq`: identities tell everything apart that they
  are made of.
* `ChunkRecord.Carries`: a record carries a chunk with a vector, field by field.
* `StoredAs R p r`: the row `r` is the chunk `p` with a vector that `R` allows.
* `Embedder.Answers`, `Embedder.Repeats`: what is relied on in an embedder.
* `rowsOf_zipWith`: the rows that are written for a batch.
-/

namespace SourceShelf

/-! ## Identities -/

/-- True of a text without a NUL character. -/
def NulFree (s : String) : Prop := '\x00' ∉ s.toList

instance (s : String) : Decidable (NulFree s) := inferInstanceAs (Decidable (_ ∉ _))

theorem nulFree_toString (n : Nat) : NulFree (toString n) :=
  fun h => absurd (isDigit_of_mem_toString h) (by decide)

theorem nulFree_toString_int (n : Int) : NulFree (toString n) := by
  cases n with
  | ofNat m => exact nulFree_toString m
  | negSucc m =>
    intro h
    have hmem : '\x00' ∈ ("-" ++ toString (m + 1)).toList := h
    rw [String.toList_append, List.mem_append] at hmem
    exact hmem.elim (by decide) (nulFree_toString (m + 1))

theorem ChunkRecord.identity_eq (r : ChunkRecord) :
    ∃ rest, r.identity = r.filePath ++ "\x00" ++ (toString r.ordinal ++ "\x00" ++ rest) := by
  refine ⟨"\x00".intercalate [r.kind, r.symbol.getD "None", toString r.startLine,
    toString r.endLine], ?_⟩
  rw [ChunkRecord.identity, String.intercalate_cons_cons, String.intercalate_cons_cons]

/-- The identity of a record tells its file and its place there. -/
theorem ChunkRecord.identity_inj {r q : ChunkRecord} {n k : Nat} (hn : r.ordinal = n)
    (hk : q.ordinal = k) (hr : NulFree r.filePath) (hq : NulFree q.filePath)
    (h : r.identity = q.identity) : r.filePath = q.filePath ∧ n = k := by
  obtain ⟨rest, hrest⟩ := r.identity_eq
  obtain ⟨rest', hrest'⟩ := q.identity_eq
  rw [hrest, hrest', hn, hk] at h
  obtain ⟨hpath, h⟩ := append_singleton_inj hr hq h
  obtain ⟨hordinal, -⟩ := append_singleton_inj (nulFree_toString n) (nulFree_toString k) h
  exact ⟨hpath, toString_nat_inj hordinal⟩

/-- The identity of a record tells everything that it is made of.  The fields before
the symbol are found from the front and those behind it from the back, so the symbol
may hold separators. -/
theorem ChunkRecord.fields_of_identity_eq {r q : ChunkRecord} (hr : NulFree r.filePath)
    (hq : NulFree q.filePath) (hrkind : NulFree r.kind) (hqkind : NulFree q.kind)
    (h : r.identity = q.identity) :
    r.filePath = q.filePath ∧ r.ordinal = q.ordinal ∧ r.kind = q.kind ∧
      r.symbol.getD "None" = q.symbol.getD "None" ∧ r.startLine = q.startLine ∧
      r.endLine = q.endLine := by
  have hidentity (x : ChunkRecord) :
      x.identity = x.filePath ++ "\x00" ++ (toString x.ordinal ++ "\x00" ++ (x.kind ++ "\x00" ++
        (x.symbol.getD "None" ++ "\x00" ++ toString x.startLine ++ "\x00" ++
          toString x.endLine))) := by
    simp only [identity, String.intercalate_cons_cons, String.intercalate_singleton,
      String.append_assoc]
  rw [hidentity, hidentity] at h
  obtain ⟨hpath, h⟩ := append_singleton_inj hr hq h
  obtain ⟨hordinal, h⟩ :=
    append_singleton_inj (nulFree_toString_int _) (nulFree_toString_int _) h
  obtain ⟨hkind, h⟩ := append_singleton_inj hrkind hqkind h
  obtain ⟨h, hend⟩ :=
    append_singleton_inj_right (nulFree_toString_int _) (nulFree_toString_int _) h
  obtain ⟨hsymbol, hstart⟩ :=
    append_singleton_inj_right (nulFree_toString_int _) (nulFree_toString_int _) h
  exact ⟨hpath, toString_int_inj hordinal, hkind, hsymbol, toString_int_inj hstart,
    toString_int_inj hend⟩

namespace PendingChunk

/-- What the identity of a chunk in the store depends on. -/
def identity (p : PendingChunk) : String := (p.record []).identity

/-- The identity of a chunk in the store. -/
def chunkId (p : PendingChunk) : String := (p.record []).chunkId

theorem identity_inj {p q : PendingChunk} (hp : NulFree p.document.path)
    (hq : NulFree q.document.path) (h : p.identity = q.identity) :
    p.document.path = q.document.path ∧ p.ordinal = q.ordinal :=
  ChunkRecord.identity_inj (r := p.record []) (q := q.record []) rfl rfl hp hq h

end PendingChunk

/-- A record carries a chunk with a vector: it names the document of the chunk and its place
there, and has its kind, symbol, lines and text. -/
structure ChunkRecord.Carries (r : ChunkRecord) (p : PendingChunk) (v : Embedding) : Prop where
  filePath : r.filePath = p.document.path
  fileSha256 : r.fileSha256 = p.document.digest
  ordinal : r.ordinal = p.ordinal
  kind : r.kind = p.chunk.kind.name
  symbol : r.symbol = p.chunk.symbol
  startLine : r.startLine = p.chunk.startLine
  endLine : r.endLine = p.chunk.endLine
  text : r.text = p.chunk.text
  embedding : r.embedding = v

theorem PendingChunk.carries_record (p : PendingChunk) (v : Embedding) :
    (p.record v).Carries p v := ⟨rfl, rfl, rfl, rfl, rfl, rfl, rfl, rfl, rfl⟩

/-- Nothing else is in a record. -/
theorem ChunkRecord.Carries.eq_record {r : ChunkRecord} {p : PendingChunk} {v : Embedding}
    (h : r.Carries p v) : r = p.record v := by
  obtain ⟨filePath, fileSha256, kind, symbol, startLine, endLine, text, embedding, ordinal⟩ := r
  obtain ⟨rfl, rfl, rfl, rfl, rfl, rfl, rfl, rfl, rfl⟩ := h
  rfl

/-! ## Rows -/

/-- A row is that of a chunk: it has the identity of the chunk, its document and fields, and
a vector that `R` allows for its text. -/
structure StoredAs (R : String → Embedding → Prop) (p : PendingChunk) (r : Row) : Prop where
  chunkId : r.chunkId = p.chunkId
  filePath : r.filePath = p.document.path
  fileSha256 : r.fileSha256 = p.document.digest
  kind : r.kind = p.chunk.kind.name
  symbol : r.symbol = p.chunk.symbol
  startLine : r.startLine = p.chunk.startLine
  endLine : r.endLine = p.chunk.endLine
  text : r.text = p.chunk.text
  vector : ∃ v, R p.chunk.text v ∧ Vector.ofEmbedding v = .ok r.vector

namespace StoredAs

variable {R : String → Embedding → Prop} {p : PendingChunk} {r r' : Row}

/-- A row that keeps the record of a chunk is that of the chunk. -/
theorem of_keeps {v : Embedding} (hv : R p.chunk.text v) (h : r.Keeps (p.record v)) :
    StoredAs R p r where
  chunkId := h.chunkId
  filePath := h.filePath
  fileSha256 := h.fileSha256
  kind := h.kind
  symbol := h.symbol
  startLine := h.startLine
  endLine := h.endLine
  text := h.text
  vector := ⟨v, hv, h.vector⟩

theorem exists_keeps (h : StoredAs R p r) : ∃ v, R p.chunk.text v ∧ r.Keeps (p.record v) := by
  obtain ⟨v, hv, hvector⟩ := h.vector
  exact ⟨v, hv, h.chunkId, h.filePath, h.fileSha256, h.kind, h.symbol, h.startLine, h.endLine,
    h.text, hvector⟩

/-- Where a text has one vector, a chunk has one row. -/
theorem unique (hR : ∀ t v v', R t v → R t v' → v = v') (h : StoredAs R p r)
    (h' : StoredAs R p r') : r = r' := by
  obtain ⟨v, hv, hr⟩ := h.exists_keeps
  obtain ⟨v', hv', hr'⟩ := h'.exists_keeps
  obtain rfl := hR _ _ _ hv hv'
  rw [← Row.ofRecord_eq_ok_iff] at hr hr'
  exact Except.ok.inj (hr.symm.trans hr')

end StoredAs

theorem exists_storedAs_of_mem {R : String → Embedding → Prop} {ps : List PendingChunk}
    {rs : List Row} (h : List.Forall₂ (StoredAs R) ps rs) {r : Row} (hr : r ∈ rs) :
    ∃ p ∈ ps, StoredAs R p r := by
  induction h with
  | nil => cases hr
  | cons hpr _ ih =>
    rcases List.mem_cons.mp hr with rfl | hr
    · exact ⟨_, List.mem_cons_self, hpr⟩
    · obtain ⟨p, hp, hpr'⟩ := ih hr
      exact ⟨p, List.mem_cons_of_mem _ hp, hpr'⟩

/-- The rows of some chunks are none of another file. -/
theorem filter_storedAs_of_other {R : String → Embedding → Prop} {ps : List PendingChunk}
    {rs : List Row} (h : List.Forall₂ (StoredAs R) ps rs) {path : String}
    (hother : ∀ p ∈ ps, p.document.path ≠ path) : rs.filter (·.filePath = path) = [] := by
  rw [List.filter_eq_nil_iff]
  intro r hr hpath
  obtain ⟨p, hp, hpr⟩ := exists_storedAs_of_mem h hr
  rw [decide_eq_true_eq, hpr.filePath] at hpath
  exact hother p hp hpath

theorem map_chunkId_of_storedAs {R : String → Embedding → Prop} {ps : List PendingChunk}
    {rs : List Row} (h : List.Forall₂ (StoredAs R) ps rs) :
    rs.map (·.chunkId) = ps.map (·.chunkId) := by
  induction h with
  | nil => rfl
  | cons hpr _ ih => rw [List.map_cons, List.map_cons, hpr.chunkId, ih]

theorem map_text_of_storedAs {R : String → Embedding → Prop} {ps : List PendingChunk}
    {rs : List Row} (h : List.Forall₂ (StoredAs R) ps rs) :
    rs.map (·.text) = ps.map (·.chunk.text) := by
  induction h with
  | nil => rfl
  | cons hpr _ ih => rw [List.map_cons, List.map_cons, hpr.text, ih]

/-- Where a text has one vector, chunks have one list of rows. -/
theorem forall₂_storedAs_unique {R : String → Embedding → Prop}
    (hR : ∀ t v v', R t v → R t v' → v = v') {ps : List PendingChunk} {rs rs' : List Row}
    (h : List.Forall₂ (StoredAs R) ps rs) (h' : List.Forall₂ (StoredAs R) ps rs') : rs = rs' := by
  induction h generalizing rs' with
  | nil =>
    cases h'
    rfl
  | cons hr _ ih =>
    obtain ⟨_, _, hr', htail, rfl⟩ := List.forall₂_cons_left_iff.1 h'
    rw [hr.unique hR hr', ih htail]

/-! ## Embedders -/

namespace Embedder

variable {σ : Type}

/-- The vectors that an embedder gives are allowed by `R`, whenever it gives one
for each text. -/
def Answers (e : Embedder σ) (R : String → Embedding → Prop) : Prop :=
  ∀ texts s s' vs, (e.embed texts).runOn s = (.ok vs, s') → vs.length = texts.length →
    List.Forall₂ R texts vs

/-- An embedder may answer whatever it likes. -/
theorem answers_any (e : Embedder σ) : e.Answers fun _ _ => True :=
  fun _ _ _ _ _ hlength => List.forall₂_iff_get.mpr ⟨hlength.symm, fun _ _ _ => trivial⟩

/-- An embedder that gives vectors for the same texts again gives the same ones. -/
def Repeats (e : Embedder σ) : Prop :=
  ∀ texts s s' vs t t' ws, (e.embed texts).runOn s = (.ok vs, s') →
    (e.embed texts).runOn t = (.ok ws, t') → vs = ws

end Embedder

/-- The rows that are written for chunks and vectors of theirs. -/
theorem rowsOf_zipWith {R : String → Embedding → Prop} {ps : List PendingChunk}
    {vs : List Embedding} {rows : List Row}
    (hvs : List.Forall₂ R (ps.map (·.chunk.text)) vs)
    (h : Store.rowsOf (List.zipWith PendingChunk.record ps vs) = .ok rows) :
    List.Forall₂ (StoredAs R) ps rows := by
  rw [Store.rowsOf_eq_ok_iff] at h
  induction ps generalizing vs rows with
  | nil =>
    cases hvs
    cases h
    exact .nil
  | cons p ps ih =>
    obtain ⟨v, vs', hv, htail, rfl⟩ := List.forall₂_cons_left_iff.1 hvs
    rw [List.zipWith_cons_cons] at h
    obtain ⟨row, rest, hrow, hrest, rfl⟩ := List.forall₂_cons_left_iff.1 h
    exact .cons (.of_keeps hv hrow) (ih htail hrest)

end SourceShelf
