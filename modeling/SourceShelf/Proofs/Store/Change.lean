import SourceShelf.Store.Basic

/-!
# Changes of a store

A `StoreChange` keeps some rows of a store and appends others, which replace
rows that it does not keep.  Changes can be made one after another
(`StoreChange.andThen`), and `part ≤ whole` says that `part` drops only rows
that `whole` drops too, and appends only rows that `whole` replaces.

The main result is `StoreChange.apply_apply_of_le`: a change that was made in
part and is then made as a whole leaves what the whole change alone leaves.
-/

namespace SourceShelf

/-- Which rows stay and which ones are appended.  An appended row takes the
place of every row like it. -/
structure StoreChange where
  keeps : Row → Bool
  adds : List Row
  replaces : ∀ r ∈ adds, keeps r = false

namespace StoreChange

/-- Makes a change. -/
def apply (c : StoreChange) (s : Store) : Store := { rows := s.rows.filter c.keeps ++ c.adds }

/-- No change. -/
def nothing : StoreChange where
  keeps _ := true
  adds := []
  replaces := by simp

/-- Removes all rows. -/
def clear : StoreChange where
  keeps _ := false
  adds := []
  replaces := by simp

/-- Removes the rows of a file. -/
def deleteFile (path : String) : StoreChange where
  keeps r := r.filePath ≠ path
  adds := []
  replaces := by simp

/-- Writes a row. -/
def insert (r : Row) : StoreChange where
  keeps q := q.chunkId ≠ r.chunkId
  adds := [r]
  replaces := by simp

/-- One change after another. -/
def andThen (a b : StoreChange) : StoreChange where
  keeps r := a.keeps r && b.keeps r
  adds := a.adds.filter b.keeps ++ b.adds
  replaces := by
    intro r hr
    rw [List.mem_append, List.mem_filter] at hr
    rcases hr with ⟨hr, -⟩ | hr
    · simp [a.replaces r hr]
    · simp [b.replaces r hr]

/-- Writes some rows. -/
def insertAll (rows : List Row) : StoreChange :=
  rows.foldl (fun c r => c.andThen (insert r)) nothing

instance : LE StoreChange where
  le part whole :=
    (∀ r, whole.keeps r = true → part.keeps r = true) ∧ ∀ r ∈ part.adds, whole.keeps r = false

/-! ## What changes do -/

@[simp] theorem nothing_apply (s : Store) : nothing.apply s = s := by
  simp [apply, nothing, List.filter_eq_self.mpr]

@[simp] theorem clear_apply (s : Store) : clear.apply s = {} := by
  simp [apply, clear]

@[simp] theorem deleteFile_apply (path : String) (s : Store) :
    (deleteFile path).apply s = s.deleteFile path := by
  simp [apply, deleteFile, Store.deleteFile]

@[simp] theorem insert_apply (r : Row) (s : Store) : (insert r).apply s = s.insert r := by
  simp [apply, insert, Store.insert]

@[simp] theorem andThen_apply (a b : StoreChange) (s : Store) :
    (a.andThen b).apply s = b.apply (a.apply s) := by
  simp only [apply, andThen, List.filter_append, List.filter_filter, List.append_assoc]
  congr 3
  funext r
  exact Bool.and_comm _ _

theorem foldl_andThen_apply (rows : List Row) (c : StoreChange) (s : Store) :
    (rows.foldl (fun c r => c.andThen (insert r)) c).apply s =
      rows.foldl Store.insert (c.apply s) := by
  induction rows generalizing c with
  | nil => rfl
  | cons r rows ih => rw [List.foldl_cons, ih, andThen_apply, insert_apply, List.foldl_cons]

@[simp] theorem insertAll_apply (rows : List Row) (s : Store) :
    (insertAll rows).apply s = rows.foldl Store.insert s := by
  rw [insertAll, foldl_andThen_apply, nothing_apply]

/-! ## Parts of changes -/

theorem le_refl (c : StoreChange) : c ≤ c := ⟨fun _ h => h, c.replaces⟩

theorem nothing_le (c : StoreChange) : nothing ≤ c := ⟨fun _ _ => rfl, by simp [nothing]⟩

/-- What was done of the first change is a part of both. -/
theorem le_andThen_of_le {part a : StoreChange} (h : part ≤ a) (b : StoreChange) :
    part ≤ a.andThen b := by
  refine ⟨fun r hr => ?_, fun r hr => ?_⟩
  · exact h.1 r (Bool.and_eq_true_iff.mp hr).1
  · simp [andThen, h.2 r hr]

/-- The first change and what was done of the second are a part of both. -/
theorem andThen_le_andThen (a : StoreChange) {part b : StoreChange} (h : part ≤ b) :
    a.andThen part ≤ a.andThen b := by
  refine ⟨fun r hr => ?_, fun r hr => ?_⟩
  · have hab := Bool.and_eq_true_iff.mp hr
    exact Bool.and_eq_true_iff.mpr ⟨hab.1, h.1 r hab.2⟩
  · rcases List.mem_append.mp hr with hr | hr
    · simp [andThen, a.replaces r (List.mem_filter.mp hr).1]
    · simp [andThen, h.2 r hr]

/-- Once the whole change is made, it does not matter that a part of it was
made before. -/
theorem apply_apply_of_le {part whole : StoreChange} (h : part ≤ whole) (s : Store) :
    whole.apply (part.apply s) = whole.apply s := by
  have hadds : part.adds.filter whole.keeps = [] := by
    rw [List.filter_eq_nil_iff]
    intro r hr
    simp [h.2 r hr]
  have hkeeps : (fun r => whole.keeps r && part.keeps r) = whole.keeps := by
    funext r
    cases hr : whole.keeps r with
    | false => rfl
    | true => rw [h.1 r hr, Bool.and_true]
  simp only [apply, List.filter_append, List.filter_filter, hadds, hkeeps, List.append_nil]

end StoreChange

end SourceShelf
