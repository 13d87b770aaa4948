import Mathlib.Data.List.Nodup

/-!
# Values under names

Lists of entries with a name each, as folders, objects and manifests have them.  If no name
comes twice, an entry is found under its name wherever it stands.

* `lookup_eq_some_iff`: what is found is what there is.
* `lookup_perm`: the order of the entries makes no difference.
* `lookup_filter`: what is found among some of the entries.
-/

namespace SourceShelf

variable {β : Type} {entries others : List (String × β)}

theorem mem_of_lookup {name : String} {v : β} (h : entries.lookup name = some v) :
    (name, v) ∈ entries := by
  obtain ⟨front, rear, rfl, -⟩ := List.lookup_eq_some_iff.mp h
  exact List.mem_append_right _ List.mem_cons_self

theorem lookup_of_mem (hdistinct : (entries.map Prod.fst).Nodup) {e : String × β}
    (he : e ∈ entries) : entries.lookup e.1 = some e.2 := by
  induction entries with
  | nil => cases he
  | cons x entries ih =>
    rw [List.map_cons, List.nodup_cons] at hdistinct
    rcases List.mem_cons.mp he with rfl | he
    · exact List.lookup_cons_self
    · have hne : e.1 ≠ x.1 := fun h => hdistinct.1 (h ▸ List.mem_map_of_mem he)
      rw [List.lookup_cons, beq_false_of_ne hne]
      exact ih hdistinct.2 he

theorem lookup_eq_some_iff (hdistinct : (entries.map Prod.fst).Nodup) {name : String} {v : β} :
    entries.lookup name = some v ↔ (name, v) ∈ entries :=
  ⟨mem_of_lookup, fun h => lookup_of_mem hdistinct h⟩

/-- The order of the entries makes no difference. -/
theorem lookup_perm (hdistinct : (entries.map Prod.fst).Nodup) (h : entries.Perm others)
    (name : String) : entries.lookup name = others.lookup name := by
  have hothers : (others.map Prod.fst).Nodup := (h.map Prod.fst).nodup_iff.mp hdistinct
  refine Option.ext fun v => ?_
  rw [lookup_eq_some_iff hdistinct, lookup_eq_some_iff hothers, h.mem_iff]

/-- Among some of the entries, what is found is what there was, if it is one of these. -/
theorem lookup_filter (hdistinct : (entries.map Prod.fst).Nodup) (keep : String × β → Bool)
    (name : String) :
    (entries.filter keep).lookup name = (entries.lookup name).filter fun v => keep (name, v) := by
  have hkept : ((entries.filter keep).map Prod.fst).Nodup :=
    hdistinct.sublist (List.filter_sublist.map Prod.fst)
  refine Option.ext fun v => ?_
  rw [lookup_eq_some_iff hkept, Option.filter_eq_some_iff, lookup_eq_some_iff hdistinct,
    List.mem_filter]

end SourceShelf
