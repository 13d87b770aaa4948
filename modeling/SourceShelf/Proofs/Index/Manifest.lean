import SourceShelf.Index.Run

/-!
# Looking up files in a manifest

* `digest?_insert`, `digest?_erase`: what one change does to what is found.
* `digest?_insertAll_of_mem`, `digest?_eraseAll`: what several changes do.
* `mem_missing`: the files that a run removes.
-/

namespace SourceShelf

namespace Manifest

/-- Enters some files, one after another. -/
def insertAll (m : Manifest) (keys : List DocumentKey) : Manifest :=
  keys.foldl (fun m k => m.insert k.path k.digest) m

/-- Strikes out some files, one after another. -/
def eraseAll (m : Manifest) (paths : List String) : Manifest := paths.foldl erase m

theorem insertAll_append_singleton (m : Manifest) (keys : List DocumentKey) (k : DocumentKey) :
    m.insertAll (keys ++ [k]) = (m.insertAll keys).insert k.path k.digest := by
  rw [insertAll, List.foldl_append]
  rfl

@[simp] theorem insertAll_embedder (m : Manifest) (keys : List DocumentKey) :
    (m.insertAll keys).embedder = m.embedder := by
  induction keys generalizing m with
  | nil => rfl
  | cons k keys ih => exact ih (m.insert k.path k.digest)

@[simp] theorem eraseAll_embedder (m : Manifest) (paths : List String) :
    (m.eraseAll paths).embedder = m.embedder := by
  induction paths generalizing m with
  | nil => rfl
  | cons p paths ih => exact ih (m.erase p)

/-! ## Lookup -/

private theorem lookup_cons (e : String × String) (files : List (String × String)) (q : String) :
    (e :: files).lookup q = if e.1 = q then some e.2 else files.lookup q := by
  by_cases h : e.1 = q
  · rw [if_pos h, ← h]
    exact List.lookup_cons_self
  · have hq : (q == e.1) = false := by simpa using fun hq => h hq.symm
    rw [if_neg h, List.lookup_cons, hq]

private theorem lookup_replace (files : List (String × String)) (path digest q : String) :
    (files.map fun e => if e.1 = path then (path, digest) else e).lookup q =
      if path = q then (if files.any (·.1 = path) then some digest else none)
      else files.lookup q := by
  induction files with
  | nil => by_cases hq : path = q <;> simp [hq]
  | cons e files ih =>
    rw [List.map_cons, lookup_cons, lookup_cons, ih, List.any_cons]
    by_cases he : e.1 = path
    · by_cases hq : path = q <;> simp [he, hq]
    · rw [if_neg he, decide_eq_false he, Bool.false_or]
      by_cases hq : path = q
      · rw [if_neg (hq ▸ he), if_pos hq, if_pos hq]
      · rw [if_neg hq, if_neg hq]

private theorem lookup_append (files : List (String × String)) (path digest q : String) :
    (files ++ [(path, digest)]).lookup q =
      (files.lookup q).or (if path = q then some digest else none) := by
  induction files with
  | nil => exact lookup_cons (path, digest) [] q
  | cons e files ih =>
    rw [List.cons_append, lookup_cons, lookup_cons, ih]
    by_cases he : e.1 = q
    · rw [if_pos he, if_pos he, Option.some_or]
    · rw [if_neg he, if_neg he]

private theorem lookup_filter (files : List (String × String)) (path q : String) :
    (files.filter (·.1 ≠ path)).lookup q = if path = q then none else files.lookup q := by
  induction files with
  | nil => by_cases hq : path = q <;> simp [hq]
  | cons e files ih =>
    rw [lookup_cons]
    by_cases he : e.1 = path
    · rw [List.filter_cons_of_neg (by simpa using he), ih, he]
      by_cases hq : path = q
      · rw [if_pos hq, if_pos hq]
      · rw [if_neg hq, if_neg hq, if_neg hq]
    · rw [List.filter_cons_of_pos (by simpa using he), lookup_cons, ih]
      by_cases hq : path = q
      · rw [if_pos hq, if_pos hq, if_neg (hq ▸ he)]
      · rw [if_neg hq, if_neg hq]

private theorem lookup_eq_none (files : List (String × String)) (q : String) :
    files.lookup q = none ↔ files.any (·.1 = q) = false := by
  induction files with
  | nil => simp
  | cons e files ih =>
    rw [lookup_cons, List.any_cons]
    by_cases hq : e.1 = q
    · simp [hq]
    · rw [if_neg hq, ih, decide_eq_false hq, Bool.false_or]

theorem digest?_insert (m : Manifest) (path digest q : String) :
    (m.insert path digest).digest? q = if path = q then some digest else m.digest? q := by
  unfold digest? insert
  by_cases hany : m.files.any (·.1 = path) = true
  · rw [if_pos hany, lookup_replace, if_pos hany]
  · rw [if_neg hany, lookup_append]
    by_cases hq : path = q
    · rw [if_pos hq, if_pos hq, ← hq,
        (lookup_eq_none m.files path).mpr (Bool.eq_false_iff.mpr hany)]
      rfl
    · rw [if_neg hq, if_neg hq, Option.or_none]

theorem digest?_erase (m : Manifest) (path q : String) :
    (m.erase path).digest? q = if path = q then none else m.digest? q :=
  lookup_filter m.files path q

theorem digest?_insertAll_of_not_mem (m : Manifest) {keys : List DocumentKey} {q : String}
    (h : ∀ k ∈ keys, k.path ≠ q) : (m.insertAll keys).digest? q = m.digest? q := by
  induction keys generalizing m with
  | nil => rfl
  | cons k keys ih =>
    have hk : ¬ k.path = q := h k List.mem_cons_self
    calc (m.insertAll (k :: keys)).digest? q
        = (m.insert k.path k.digest).digest? q :=
          ih _ fun k' hk' => h k' (List.mem_cons_of_mem _ hk')
      _ = m.digest? q := by rw [digest?_insert, if_neg hk]

/-- What was entered is found, if no file was entered twice. -/
theorem digest?_insertAll_of_mem (m : Manifest) {keys : List DocumentKey}
    (hdistinct : (keys.map (·.path)).Nodup) {k : DocumentKey} (h : k ∈ keys) :
    (m.insertAll keys).digest? k.path = some k.digest := by
  induction keys generalizing m with
  | nil => cases h
  | cons k' keys ih =>
    rw [List.map_cons, List.nodup_cons] at hdistinct
    rcases List.mem_cons.mp h with rfl | h
    · have hrest : ∀ k'' ∈ keys, k''.path ≠ k.path := fun k'' hk'' hpath =>
        hdistinct.1 (hpath ▸ List.mem_map_of_mem hk'')
      calc (m.insertAll (k :: keys)).digest? k.path
          = (m.insert k.path k.digest).digest? k.path := digest?_insertAll_of_not_mem _ hrest
        _ = some k.digest := by rw [digest?_insert, if_pos rfl]
    · exact ih _ hdistinct.2 h

theorem digest?_eraseAll (m : Manifest) (paths : List String) (q : String) :
    (m.eraseAll paths).digest? q = if q ∈ paths then none else m.digest? q := by
  induction paths generalizing m with
  | nil => rfl
  | cons p paths ih =>
    have hstep := ih (m.erase p)
    rw [digest?_erase] at hstep
    refine Eq.trans hstep ?_
    by_cases hp : p = q
    · rw [if_pos hp, ite_self, if_pos (hp ▸ List.mem_cons_self)]
    · have hcons : q ∈ p :: paths ↔ q ∈ paths := by
        rw [List.mem_cons]
        exact or_iff_right fun hq => hp hq.symm
      simp only [if_neg hp, hcons]

/-- The files that are removed: those in the manifest that are no candidates. -/
theorem mem_missing {m : Manifest} {cs : List Candidate} {p : String} :
    p ∈ RunState.missing m cs ↔ m.digest? p ≠ none ∧ ∀ c ∈ cs, c.path ≠ p := by
  have hlisted : (∃ e ∈ m.files, e.1 = p) ↔ m.digest? p ≠ none := by
    rw [digest?, ne_eq, lookup_eq_none, Bool.not_eq_false, List.any_eq_true]
    simp only [decide_eq_true_eq]
  rw [RunState.missing, List.mem_mergeSort, List.mem_filter, List.mem_map, hlisted]
  simp only [Bool.not_eq_true', List.any_eq_false, decide_eq_true_eq]

end Manifest

end SourceShelf
