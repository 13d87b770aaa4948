import Mathlib
import SourceShelf.Proofs.Store.RowMap

/-!
# What a search finds

A search sorts the rows of the query's size by their scores and returns the
first ones.

There are three groups.

* The order of scores.  `standing` gives every number of single precision its
  place in one line, with what is no number at the end, so that
  `Store.scoreNotBelow` is transitive and total (`isRanking_scoreNotBelow`).
  Everything behind it holds for any scores that can be compared.
* The positions.  `Ranks` says in what order the positions of some rows are
  returned: the better score first, and rows with equally good scores as they
  are stored.  `exists_ranks` is about the sorting.
* The result.  `Store.Finds` is what follows for the rows that are returned and
  for those that are left out, and `Handle.search_finds` is the result.
-/

namespace SourceShelf

/-! ## The order of scores -/

/-- Of any two scores one is as good as the other, and a score that is as good as
another one is as good as all that are below that one. -/
structure IsRanking {κ : Type} (notBelow : κ → κ → Bool) : Prop where
  trans : ∀ a b c, notBelow a b = true → notBelow b c = true → notBelow a c = true
  total : ∀ a b, (notBelow a b || notBelow b a) = true

theorem IsRanking.of_key {κ ω : Type} [LinearOrder ω] {notBelow : κ → κ → Bool} (key : κ → ω)
    (h : ∀ a b, notBelow a b = true ↔ key b ≤ key a) : IsRanking notBelow where
  trans a b c hab hbc := by
    rw [h] at hab hbc ⊢
    exact hbc.trans hab
  total a b := by
    rw [Bool.or_eq_true, h, h]
    exact le_total _ _

section Float32

open Float.Model Float.Model.UnpackedFloat

/-- Where a number stands: its sign and kind first, then the exponent, then the
mantissa.  What is no number stands below all numbers. -/
def standing : UnpackedFloat → Int ×ₗ Int ×ₗ Int
  | .notANumber => toLex (-3, toLex (0, 0))
  | .infinity .negative => toLex (-2, toLex (0, 0))
  | .finite .negative mantissa exponent _ => toLex (-1, toLex (-exponent, -mantissa))
  | .zero _ => toLex (0, toLex (0, 0))
  | .finite .positive mantissa exponent _ => toLex (1, toLex (exponent, mantissa))
  | .infinity .positive => toLex (2, toLex (0, 0))

theorem isLE_then_compare (e e' : Int) (m m' : Nat) :
    ((compare e e').then (compare m m')).isLE = true ↔ e < e' ∨ e = e' ∧ m ≤ m' := by
  rw [Ordering.isLE_then_iff_or, compare_lt_iff_lt, compare_eq_iff_eq, Nat.isLE_compare]

theorem isLE_swap_then_compare (e e' : Int) (m m' : Nat) :
    ((compare e e').then (compare m m')).swap.isLE = true ↔ e' < e ∨ e' = e ∧ m' ≤ m := by
  rw [Ordering.swap_then, ← Std.OrientedOrd.eq_swap, ← Std.OrientedOrd.eq_swap,
    isLE_then_compare]

/-- One number is not greater than another one if it does not stand higher. -/
theorem le_iff_standing (a b : UnpackedFloat) :
    a.le b = true ↔ a.isNaN = false ∧ b.isNaN = false ∧ standing a ≤ standing b := by
  -- Only for two numbers of one sign the exponents and mantissas count.
  rcases a with (_ | _) | _ | (_ | _) | ⟨_ | _, m, e, _⟩ <;>
    rcases b with (_ | _) | _ | (_ | _) | ⟨_ | _, m', e', _⟩
  case finite.negative.finite.negative =>
    rw [UnpackedFloat.le, UnpackedFloat.compare, Option.any_some, isLE_swap_then_compare]
    simp [UnpackedFloat.isNaN, standing, Prod.Lex.toLex_le_toLex, eq_comm]
  case finite.positive.finite.positive =>
    rw [UnpackedFloat.le, UnpackedFloat.compare, Option.any_some, isLE_then_compare]
    simp [UnpackedFloat.isNaN, standing, Prod.Lex.toLex_le_toLex]
  all_goals
    simp [UnpackedFloat.le, UnpackedFloat.compare, UnpackedFloat.isNaN, standing,
      Prod.Lex.toLex_le_toLex, Ordering.isLE, compare]

/-- What is no number stands below all, and nothing else does. -/
theorem isNaN_iff_standing (a : UnpackedFloat) :
    a.isNaN = true ↔ ∀ b, standing a ≤ standing b := by
  constructor
  · intro ha b
    cases a with
    | notANumber =>
      rcases b with (_ | _) | _ | (_ | _) | ⟨_ | _, m, e, _⟩ <;>
        simp [standing, Prod.Lex.toLex_le_toLex]
    | _ => simp [UnpackedFloat.isNaN] at ha
  · intro h
    have hnan := h .notANumber
    rcases a with (_ | _) | _ | (_ | _) | ⟨_ | _, m, e, _⟩ <;>
      simp [standing, Prod.Lex.toLex_le_toLex, UnpackedFloat.isNaN] at hnan ⊢

/-- The order of scores is that of where they stand. -/
theorem scoreNotBelow_iff (a b : Float32) :
    Store.scoreNotBelow a b = true ↔ standing b.toModel.unpack ≤ standing a.toModel.unpack := by
  have hle : b ≤ a ↔ b.toModel.unpack.le a.toModel.unpack = true := by
    change (decide (b.toModel ≤ a.toModel)) = true ↔ _
    rw [decide_eq_true_iff]
    rfl
  have hnan : b.isNaN = b.toModel.unpack.isNaN := rfl
  rw [Store.scoreNotBelow, Bool.or_eq_true, decide_eq_true_iff, hle, hnan, le_iff_standing]
  constructor
  · rintro (hb | ⟨-, -, h⟩)
    · exact (isNaN_iff_standing _).mp hb _
    · exact h
  · intro h
    rcases hb : b.toModel.unpack.isNaN with _ | _
    · refine .inr ⟨rfl, ?_, h⟩
      refine Bool.eq_false_iff.mpr fun ha => Bool.eq_false_iff.mp hb ?_
      exact (isNaN_iff_standing _).mpr fun c => h.trans ((isNaN_iff_standing _).mp ha c)
    · exact .inl rfl

theorem isRanking_scoreNotBelow : IsRanking Store.scoreNotBelow :=
  .of_key (fun x => standing x.toModel.unpack) scoreNotBelow_iff

end Float32

/-! ## The positions -/

/-- In what order the positions of some rows are returned. -/
structure Ranks {κ : Type} (notBelow : κ → κ → Bool) (score : Row → κ) (rows : List Row)
    (order : List (Fin rows.length)) : Prop where
  /-- Every row has its place. -/
  all : order.Perm (List.finRange rows.length)
  sorted : order.Pairwise fun i j => notBelow (score rows[i]) (score rows[j]) = true
  /-- Rows with equally good scores stay in the order in which they are stored. -/
  stable : order.Pairwise fun i j => notBelow (score rows[j]) (score rows[i]) = true → i < j

section Ranks

variable {κ : Type} {notBelow : κ → κ → Bool}

/-- Sorting positions by the scores that stand there.  A stable sort is one that
compares the positions where the scores do not decide. -/
theorem pairwise_mergeSort_finRange (h : IsRanking notBelow) {n : Nat} (score : Fin n → κ) :
    ((List.finRange n).mergeSort fun i j => notBelow (score i) (score j)).Pairwise fun i j =>
      notBelow (score i) (score j) = true ∧ (notBelow (score j) (score i) = true → i < j) := by
  have hnodup : ((List.finRange n).mergeSort fun i j => notBelow (score i) (score j)).Nodup :=
    (List.mergeSort_perm _ _).nodup_iff.mpr (List.nodup_finRange n)
  -- the library sorts as if by pairs with their positions, which decide between equals
  rw [← List.mergeSort_zipIdx] at hnodup ⊢
  rw [List.Nodup, List.pairwise_map] at hnodup
  rw [List.pairwise_map]
  have hsorted := List.pairwise_mergeSort
    (List.zipIdxLE_trans fun i j l => h.trans (score i) (score j) (score l))
    (List.zipIdxLE_total fun i j => h.total (score i) (score j)) (List.finRange n).zipIdx
  have hplace : ∀ p ∈ (List.finRange n).zipIdx, p.2 = p.1.val := by
    intro p hp
    obtain ⟨hlt, hget⟩ := List.getElem?_eq_some_iff.mp (List.mk_mem_zipIdx_iff_getElem?.mp hp)
    rw [← hget, List.getElem_finRange]
    rfl
  refine (hsorted.and hnodup).imp_of_mem fun {p q} hp hq hpq => ?_
  obtain ⟨hle, hne⟩ := hpq
  have hp := hplace p (List.mem_mergeSort.mp hp)
  have hq := hplace q (List.mem_mergeSort.mp hq)
  unfold List.zipIdxLE at hle
  split at hle
  · rename_i hscore
    refine ⟨hscore, fun hback => ?_⟩
    rw [if_pos hback, decide_eq_true_eq, hp, hq] at hle
    exact lt_of_le_of_ne hle hne
  · cases hle

/-- The positions are sorted, whatever number of rows is returned. -/
theorem exists_ranks (h : IsRanking notBelow) (score : Row → κ) (rows : List Row) :
    ∃ order, Ranks notBelow score rows order ∧
      ∀ k, Store.best notBelow score k rows =
        (order.take (max 1 k).toNat).map fun i => (rows[i], score rows[i]) := by
  have hpairs := pairwise_mergeSort_finRange h fun i : Fin rows.length => score rows[i]
  refine ⟨_, ⟨List.mergeSort_perm _ _, hpairs.imp And.left, hpairs.imp And.right⟩, fun k => ?_⟩
  have hrows : (List.finRange rows.length).map (fun i => (rows[i], score rows[i])) =
      rows.map fun r => (r, score r) := by
    conv => rhs; rw [← List.map_getElem_finRange rows, List.map_map]
    rfl
  have hsort : ((List.finRange rows.length).mergeSort fun i j =>
      notBelow (score rows[i]) (score rows[j])).map (fun i => (rows[i], score rows[i])) =
        (rows.map fun r => (r, score r)).mergeSort fun a b => notBelow a.2 b.2 := by
    rw [← hrows]
    exact List.map_mergeSort fun _ _ _ _ => rfl
  rw [Store.best, ← hsort, List.map_take]

end Ranks

/-! ## The result -/

namespace Store

/-- A search with any scores in place of the cosine. -/
def searchBy {κ : Type} (s : Store) (notBelow : κ → κ → Bool) (score : Vector → Vector → κ)
    (query : Vector) (k : Int) : List (Row × κ) :=
  best notBelow (fun r => score r.vector query) k (s.rowsOfSize query.size)

theorem search_eq_searchBy (s : Store) (query : Vector) (k : Int) :
    s.search query k = s.searchBy scoreNotBelow Vector.cosine query k := rfl

/-- What is found for a query, if `k` rows are asked for. -/
structure Finds {κ : Type} (s : Store) (notBelow : κ → κ → Bool) (score : Vector → Vector → κ)
    (query : Vector) (found : Int → List (Row × κ)) : Prop where
  /-- The rows whose vectors are as long as the query are ranked, and the first ones are
  returned. -/
  first : ∀ rows, rows = s.rows.filter (fun r => r.vector.values.length = query.values.length) →
    ∃ order, Ranks notBelow (fun r => score r.vector query) rows order ∧
      ∀ k, found k = (order.take (max 1 k).toNat).map fun i =>
        (rows[i], score rows[i].vector query)
  /-- Every row is stored, is as long as the query and comes with its own score. -/
  own : ∀ k, ∀ hit ∈ found k, hit.1 ∈ s.rows ∧
    hit.1.vector.values.length = query.values.length ∧ hit.2 = score hit.1.vector query
  /-- The rows that are left out are the others that are as long as the query, and none of
  them has a better score. -/
  best : ∀ k, ∃ left,
    ((found k).map Prod.fst ++ left).Perm
      (s.rows.filter fun r => r.vector.values.length = query.values.length) ∧
    ∀ hit ∈ found k, ∀ r ∈ left, notBelow hit.2 (score r.vector query) = true
  /-- As many rows are found as are asked for, unless there are fewer. -/
  length : ∀ k, (found k).length = min (max 1 k).toNat
    (s.rows.countP fun r => r.vector.values.length = query.values.length)
  /-- No row is found twice. -/
  once : (s.rows.map Row.chunkId).Nodup → ∀ k, ((found k).map fun hit => hit.1.chunkId).Nodup
  /-- More rows are found behind the first ones. -/
  grows : ∀ k k', k ≤ k' → found k <+: found k'

theorem rowsOfSize_eq (s : Store) (query : Vector) :
    s.rowsOfSize query.size =
      s.rows.filter fun r => r.vector.values.length = query.values.length := rfl

/-- Sorting the rows finds the best ones, whatever the scores are. -/
theorem finds_of_isRanking {κ : Type} {notBelow : κ → κ → Bool} (h : IsRanking notBelow)
    (s : Store) (score : Vector → Vector → κ) (query : Vector) :
    s.Finds notBelow score query (s.searchBy notBelow score query) := by
  obtain ⟨order, hranks, hfound⟩ :=
    exists_ranks h (fun r => score r.vector query) (s.rowsOfSize query.size)
  have hbest : ∀ k, ∃ left,
      ((s.searchBy notBelow score query k).map Prod.fst ++ left).Perm (s.rowsOfSize query.size) ∧
        ∀ hit ∈ s.searchBy notBelow score query k, ∀ r ∈ left,
          notBelow hit.2 (score r.vector query) = true := by
    intro k
    refine ⟨(order.drop (max 1 k).toNat).map fun i => (s.rowsOfSize query.size)[i], ?_, ?_⟩
    · have hrows := hranks.all.map fun i => (s.rowsOfSize query.size)[i]
      rw [← List.take_append_drop (max 1 k).toNat order, List.map_append] at hrows
      rw [searchBy, hfound, List.map_map]
      exact hrows.trans (.of_eq (List.map_getElem_finRange _))
    · intro hit hhit r hr
      rw [searchBy, hfound] at hhit
      obtain ⟨i, hi, rfl⟩ := List.mem_map.mp hhit
      obtain ⟨j, hj, rfl⟩ := List.mem_map.mp hr
      exact hranks.sorted.rel_of_mem_take_of_mem_drop hi hj
  refine ⟨?first, ?own, hbest, ?length, ?once, ?grows⟩
  case first =>
    intro rows hrows
    subst hrows
    exact ⟨order, hranks, hfound⟩
  case own =>
    intro k hit hhit
    rw [searchBy, hfound] at hhit
    obtain ⟨i, -, rfl⟩ := List.mem_map.mp hhit
    obtain ⟨hstored, hsize⟩ := List.mem_filter.mp (List.getElem_mem i.isLt)
    exact ⟨hstored, of_decide_eq_true hsize, rfl⟩
  case length =>
    intro k
    rw [searchBy, hfound, List.length_map, List.length_take, hranks.all.length_eq,
      List.length_finRange, List.countP_eq_length_filter, rowsOfSize_eq]
  case once =>
    intro hnodup k
    obtain ⟨left, hperm, -⟩ := hbest k
    have hsize : ((s.rowsOfSize query.size).map Row.chunkId).Nodup :=
      hnodup.sublist (List.filter_sublist.map _)
    have hall := (hperm.map Row.chunkId).nodup_iff.mpr hsize
    rw [List.map_append, List.map_map] at hall
    exact hall.of_append_left
  case grows =>
    intro k k' hk
    rw [searchBy, searchBy, hfound, hfound]
    exact (List.take_prefix_take_left (by omega)).map _

end Store

theorem RowMap.nodup_chunkIds (m : RowMap) : (m.rows.map Row.chunkId).Nodup := by
  have hkeys : m.byId.entries.map (fun e => e.2.chunkId) = m.byId.keys :=
    List.map_congr_left m.keyed
  rw [rows, List.map_reverse, List.nodup_reverse, List.map_map]
  exact hkeys ▸ m.byId.keys_nodup

namespace Handle

/-- An open store answers a query that is a vector with the best rows of its size,
the best one first; whatever the scores of rows are, the same way of searching
finds the best.  No row is found twice, however the store was written. -/
theorem search_finds {h : Handle} {query : Embedding} {v : Vector} (hopen : h.isOpen = true)
    (hquery : Vector.ofEmbedding query = .ok v) :
    (∀ k, h.search query k = .ok (h.store.search v k, h.store.searchRecords v)) ∧
      h.store.Finds Store.scoreNotBelow Vector.cosine v (h.store.search v) ∧
      (∀ {κ : Type} [LinearOrder κ] (score : Vector → Vector → κ),
        h.store.Finds (fun a b => decide (b ≤ a)) score v
          (h.store.searchBy (fun a b => decide (b ≤ a)) score v)) ∧
      ∀ calls, h = ({} : Handle).after calls →
        ∀ k, ((h.store.search v k).map fun hit => hit.1.chunkId).Nodup := by
  have hsearch : h.store.search v = h.store.searchBy Store.scoreNotBelow Vector.cosine v :=
    funext (h.store.search_eq_searchBy v)
  have hfinds : h.store.Finds Store.scoreNotBelow Vector.cosine v (h.store.search v) := by
    rw [hsearch]
    exact Store.finds_of_isRanking isRanking_scoreNotBelow h.store Vector.cosine v
  refine ⟨fun k => ?_, hfinds, fun score => ?_, ?_⟩
  · rw [search, current_of_isOpen hopen, hquery]
    rfl
  · exact Store.finds_of_isRanking (.of_key id fun a b => decide_eq_true_iff) h.store score v
  · rintro calls rfl
    have hempty : ({} : Handle).Holds .empty := ⟨rfl, rfl⟩
    refine hfinds.once ?_
    rw [(hempty.after calls).rows]
    exact RowMap.nodup_chunkIds _

/-- Three chunks, the first and the last with one vector and the other one with a shorter
vector. -/
def mixedRecords : List ChunkRecord :=
  [{ filePath := "A.java", symbol := some "A#f", embedding := [.bool true, .bool false] },
    { filePath := "A.java", symbol := some "A#g", embedding := [.bool true], ordinal := 1 },
    { filePath := "B.java", symbol := some "B#f", embedding := [.bool true, .bool false] }]

/-- A store with these chunks. -/
def mixedStore : Handle := ({} : Handle).after [.upsert mixedRecords]

/-- A search among rows with vectors of two sizes, two of them with the same score. -/
theorem search_finds_mixedStore :
    let v : Vector := ⟨2, [1.0, 0.0]⟩
    mixedStore.store.rows.map (·.vector.values.length) = [2, 1, 2] ∧
      mixedStore.isOpen = true ∧ Vector.ofEmbedding [.bool true, .bool false] = .ok v ∧
      (∀ k, mixedStore.search [.bool true, .bool false] k =
        .ok (mixedStore.store.search v k, mixedStore.store.searchRecords v)) ∧
      mixedStore.store.Finds Store.scoreNotBelow Vector.cosine v (mixedStore.store.search v) ∧
      mixedStore.store.Finds (fun a b : Nat => decide (b ≤ a)) (fun u _ => u.extent) v
        (mixedStore.store.searchBy (fun a b : Nat => decide (b ≤ a)) (fun u _ => u.extent) v) ∧
      (mixedStore.store.search v 2).length = 2 ∧
      ((mixedStore.store.search v 2).map fun hit => hit.1.chunkId).Nodup := by
  intro v
  have hsizes : mixedStore.store.rows.map (·.vector.values.length) = [2, 1, 2] := by
    decide +kernel
  have hquery : Vector.ofEmbedding [.bool true, .bool false] = .ok v := rfl
  obtain ⟨hsearch, hfinds, hranked, honce⟩ := search_finds (h := mixedStore) rfl hquery
  have hcount (rows : List Row) : rows.countP (fun r => r.vector.values.length = 2) =
      (rows.map (·.vector.values.length)).countP (· = 2) := by
    rw [List.countP_map]
    rfl
  refine ⟨hsizes, rfl, hquery, hsearch, hfinds, hranked _, ?_, honce _ rfl 2⟩
  have hlength : (mixedStore.store.search v 2).length =
      min 2 (mixedStore.store.rows.countP fun r => r.vector.values.length = 2) := hfinds.length 2
  rw [hlength, hcount, hsizes]
  rfl

end Handle

end SourceShelf
