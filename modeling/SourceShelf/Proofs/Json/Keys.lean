import Mathlib.Data.List.Nodup
import SourceShelf.Json.Reader

/-!
# No key comes twice

* `Value.put_of_new`, `Value.keys_put`: what setting a key does to the keys.
* `Value.Tidy`: in every object of a value, keys are apart.
* `tidy_of_read`: whatever a text holds, the value that is read is tidy.
-/

namespace SourceShelf.Json

namespace Value

theorem put_of_new {entries : List (String × Value)} {key : String} (v : Value)
    (h : key ∉ entries.map Prod.fst) : put entries key v = entries ++ [(key, v)] := by
  unfold put
  rw [if_neg]
  intro hany
  obtain ⟨e, he, hkey⟩ := List.any_eq_true.mp hany
  rw [decide_eq_true_eq] at hkey
  exact h (hkey ▸ List.mem_map_of_mem he)

theorem keys_put_of_mem {entries : List (String × Value)} {key : String} (v : Value)
    (h : key ∈ entries.map Prod.fst) :
    (put entries key v).map Prod.fst = entries.map Prod.fst := by
  obtain ⟨e, he, hkey⟩ := List.mem_map.mp h
  unfold put
  rw [if_pos (List.any_eq_true.mpr ⟨e, he, by simpa using hkey⟩), List.map_map]
  refine List.map_congr_left fun e _ => ?_
  rw [Function.comp_apply]
  split
  · rename_i heq
    exact heq.symm
  · rfl

/-- Setting a key keeps keys apart. -/
theorem keys_put_nodup {entries : List (String × Value)} (h : (entries.map Prod.fst).Nodup)
    (key : String) (v : Value) : ((put entries key v).map Prod.fst).Nodup := by
  by_cases hmem : key ∈ entries.map Prod.fst
  · rw [keys_put_of_mem v hmem]
    exact h
  · rw [put_of_new v hmem, List.map_append, List.map_singleton]
    simpa using h.concat hmem

theorem mem_put {entries : List (String × Value)} {key : String} {v : Value} {e : String × Value}
    (h : e ∈ put entries key v) : e ∈ entries ∨ e = (key, v) := by
  unfold put at h
  split at h
  · obtain ⟨e', he', rfl⟩ := List.mem_map.mp h
    split
    · exact .inr rfl
    · exact .inl he'
  · rcases List.mem_append.mp h with h | h
    · exact .inl h
    · exact .inr (List.mem_singleton.mp h)

/-- The entries that some keys and values make, one after another. -/
theorem ofEntries_cases (entries : List (String × Value)) :
    ∃ es, ofEntries entries = obj es ∧ (es.map Prod.fst).Nodup ∧ ∀ e ∈ es, e ∈ entries := by
  suffices ∀ done : List (String × Value), (done.map Prod.fst).Nodup →
      let es := entries.foldl (fun es e => put es e.1 e.2) done
      (es.map Prod.fst).Nodup ∧ ∀ e ∈ es, e ∈ done ∨ e ∈ entries by
    obtain ⟨hkeys, hmem⟩ := this [] List.nodup_nil
    exact ⟨_, rfl, hkeys, fun e he => (hmem e he).resolve_left List.not_mem_nil⟩
  induction entries with
  | nil => exact fun done h => ⟨h, fun e he => .inl he⟩
  | cons e entries ih =>
    intro done h
    obtain ⟨hkeys, hmem⟩ := ih (put done e.1 e.2) (keys_put_nodup h e.1 e.2)
    refine ⟨hkeys, fun e' he' => ?_⟩
    rcases hmem e' he' with hput | hrest
    · rcases mem_put hput with hdone | rfl
      · exact .inl hdone
      · exact .inr List.mem_cons_self
    · exact .inr (List.mem_cons_of_mem _ hrest)

/-- Entries whose keys are apart make the object of these entries. -/
theorem ofEntries_of_nodup {entries : List (String × Value)} (h : (entries.map Prod.fst).Nodup) :
    ofEntries entries = obj entries := by
  suffices ∀ done : List (String × Value), ((done ++ entries).map Prod.fst).Nodup →
      entries.foldl (fun es e => put es e.1 e.2) done = done ++ entries from
    congrArg obj (this [] h)
  clear h
  induction entries with
  | nil => exact fun done _ => (List.append_nil done).symm
  | cons e entries ih =>
    intro done hnodup
    have hnew : e.1 ∉ done.map Prod.fst := by
      rw [List.map_append, List.map_cons, List.nodup_append] at hnodup
      exact fun hmem => hnodup.2.2 _ hmem _ List.mem_cons_self rfl
    rw [List.foldl_cons, put_of_new e.2 hnew, ih _ (by simpa using hnodup), List.append_assoc]
    rfl

/-- In every object of a value, keys are apart. -/
inductive Tidy : Value → Prop where
  | null : Tidy null
  | bool (b : Bool) : Tidy (bool b)
  | int (n : Int) : Tidy (int n)
  | float (x : Float) : Tidy (float x)
  | str (s : String) : Tidy (str s)
  | arr {vs : List Value} (items : ∀ v ∈ vs, Tidy v) : Tidy (arr vs)
  | obj {es : List (String × Value)} (keys : (es.map Prod.fst).Nodup)
      (values : ∀ e ∈ es, Tidy e.2) : Tidy (obj es)

theorem tidy_ofEntries {entries : List (String × Value)} (h : ∀ e ∈ entries, e.2.Tidy) :
    (ofEntries entries).Tidy := by
  obtain ⟨es, heq, hkeys, hmem⟩ := ofEntries_cases entries
  rw [heq]
  exact .obj hkeys fun e he => h e (hmem e he)

end Value

/-! ## The reader -/

theorem tidy_of_word {cs rest : List Char} {v : Value} (h : word? cs = some (v, rest)) :
    v.Tidy := by
  obtain ⟨w, hw, heq⟩ := Option.map_eq_some_iff.mp h
  have hmem := List.mem_of_find?_eq_some hw
  have hv : v = w.2 := (congrArg Prod.fst heq).symm
  simp only [words, List.mem_cons, List.not_mem_nil, or_false] at hmem
  rcases hmem with rfl | rfl | rfl | rfl | rfl | rfl <;> subst hv <;> constructor

theorem tidy_of_number {cs rest : List Char} {v : Value} (h : number cs = .ok (v, rest)) :
    v.Tidy := by
  suffices ∀ negative cs, unsignedNumber negative cs = some (.ok (v, rest)) → v.Tidy by
    unfold number at h
    dsimp only at h
    rcases hunsigned : unsignedNumber _ _ with _ | r
    · rw [hunsigned] at h
      cases h
    · rw [hunsigned] at h
      exact this _ _ (hunsigned.trans (congrArg some h))
  clear h
  intro negative cs h
  unfold unsignedNumber at h
  extract_lets whole at h
  by_cases hempty : whole.isEmpty = true
  · rw [if_pos hempty] at h
    cases h
  · rw [if_neg hempty] at h
    dsimp only at h
    split at h
    · split at h
      · cases h
      · cases h
        exact .int _
    · cases h
      exact .float _

theorem tidy_of_value (fuel : Nat) :
    (∀ levels cs v rest, value levels fuel cs = .ok (v, rest) → v.Tidy) ∧
    (∀ levels done cs v rest, (∀ x ∈ done, Value.Tidy x) →
      items levels fuel done cs = .ok (v, rest) → v.Tidy) ∧
    (∀ levels done cs v rest, (∀ e ∈ done, Value.Tidy (Prod.snd e)) →
      members levels fuel done cs = .ok (v, rest) → v.Tidy) := by
  induction fuel with
  | zero =>
    refine ⟨fun _ cs v rest h => ?_, fun _ done cs v rest _ h => ?_, fun _ done cs v rest _ h => ?_⟩
    · cases h
    · cases h
    · cases h
  | succ fuel ih =>
    obtain ⟨hvalue, hitems, hmembers⟩ := ih
    refine ⟨fun levels cs v rest h => ?_, fun levels done cs v rest hdone h => ?_,
      fun levels done cs v rest hdone h => ?_⟩
    · unfold value at h
      split at h
      · rename_i body
        rcases hstring : string fuel body with e | ⟨s, rest'⟩
        · rw [hstring] at h
          cases h
        · rw [hstring] at h
          cases h
          exact .str s
      · split at h
        · cases h
        split at h
        · cases h
          exact .obj List.nodup_nil fun e he => absurd he List.not_mem_nil
        · exact hmembers _ [] _ v rest (fun e he => absurd he List.not_mem_nil) h
      · split at h
        · cases h
        split at h
        · cases h
          exact .arr fun e he => absurd he List.not_mem_nil
        · exact hitems _ [] _ v rest (fun e he => absurd he List.not_mem_nil) h
      · split at h
        · rename_i r hword
          cases h
          exact tidy_of_word hword
        · exact tidy_of_number h
    · unfold items at h
      split at h
      · cases h
      · rename_i x rest' hread
        have hnext : ∀ y ∈ x :: done, y.Tidy := fun y hy => by
          rcases List.mem_cons.mp hy with rfl | hy
          · exact hvalue _ _ _ _ hread
          · exact hdone y hy
        split at h
        · cases h
          exact .arr fun y hy => hnext y (List.mem_reverse.mp hy)
        · exact hitems _ _ _ v rest hnext h
        · cases h
    · unfold members at h
      split at h
      · split at h
        · cases h
        · rename_i key rest' hkey
          split at h
          · split at h
            · cases h
            · rename_i x rest'' hread
              have hnext : ∀ e ∈ (key, x) :: done, e.2.Tidy := fun e he => by
                rcases List.mem_cons.mp he with rfl | he
                · exact hvalue _ _ _ _ hread
                · exact hdone e he
              split at h
              · cases h
                exact Value.tidy_ofEntries fun e he => hnext e (List.mem_reverse.mp he)
              · exact hmembers _ _ _ v rest hnext h
              · cases h
          · cases h
      · cases h

/-- Whatever a text holds, no object of the value that is read has a key twice. -/
theorem tidy_of_readChars {limit : NestingLimit} {cs : List Char} {v : Value}
    (h : readChars limit cs = .ok v) : v.Tidy := by
  unfold readChars at h
  split at h
  · cases h
  · split at h
    · cases h
    · rename_i hvalue
      split at h
      · cases h
        exact (tidy_of_value _).1 _ _ _ _ hvalue
      · cases h

end SourceShelf.Json
