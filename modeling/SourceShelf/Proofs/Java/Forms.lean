import Mathlib.Data.List.Basic
import SourceShelf.Java.Item

/-!
# The numbers of the forms

`Forms.build` numbers the forms of the grammar phrase by phrase.  `Forms.number`
is that number said directly: the forms of all phrases before, and the place
among the forms of the phrase itself.  `Forms.entry_number` is what a reader
finds under it.

The last section says what a reader of an empty text needs to know about the
grammar: the end of the text is no step of any phrase, and only `program` can
be empty.
-/

namespace SourceShelf.Java

namespace Phrase

theorem ctorIdx_lt_count (p : Phrase) : p.ctorIdx < count := by
  cases p <;> decide

theorem mem_all (p : Phrase) : p ∈ all :=
  List.mem_map.mpr ⟨p.ctorIdx, List.mem_range.mpr p.ctorIdx_lt_count, ofNat_ctorIdx p⟩

@[simp] theorem length_all : all.length = count := by
  simp [all]

theorem getElem?_all (p : Phrase) : all[p.ctorIdx]? = some p := by
  simp [all, p.ctorIdx_lt_count, ofNat_ctorIdx]

theorem ctorIdx_inj {p q : Phrase} (h : p.ctorIdx = q.ctorIdx) : p = q := by
  rw [← ofNat_ctorIdx p, h, ofNat_ctorIdx]

end Phrase

/-! ## Forms -/

namespace Form

theorem mem_nextSteps {m : Symbol × List Step} {steps : List Step} (h : m ∈ nextSteps steps) :
    ∃ s ∈ steps, s.symbol = m.1 := by
  induction steps with
  | nil => simp [nextSteps] at h
  | cons s rest ih =>
    rw [nextSteps, List.mem_cons] at h
    rcases h with rfl | h
    · exact ⟨s, by simp, rfl⟩
    · split at h
      · obtain ⟨s', hs', he⟩ := ih h
        exact ⟨s', by simp [hs'], he⟩
      · simp at h

theorem mem_moves {m : Symbol × Form} {f : Form} (h : m ∈ f.moves) :
    ∃ s ∈ f.steps, s.symbol = m.1 := by
  obtain ⟨m', hm', rfl⟩ := List.mem_map.mp h
  exact mem_nextSteps hm'

theorem self_mem_suffixes (f : Form) : f ∈ f.suffixes := by
  obtain ⟨head, precedence, assoc, preference, shown, steps⟩ := f
  cases steps <;> simp [suffixes, suffixes.go, withSteps]

theorem mem_ofPhrase_of_mem_starts {f : Form} {p : Phrase} (h : f ∈ starts p) :
    f ∈ Forms.ofPhrase p := by
  rw [Forms.ofPhrase, List.mem_eraseDups]
  exact List.mem_flatMap.mpr ⟨f, h, f.self_mem_suffixes⟩

end Form

/-! ## The numbering -/

/-- The entry at a place in one of several lists put together. -/
private theorem getElem?_flatMap_aux {α β : Type} (g : α → List β) {l : List α} {k i : Nat}
    {a : α} (hk : l[k]? = some a) (hi : i < (g a).length) :
    (l.flatMap g)[((l.take k).flatMap g).length + i]? = (g a)[i]? := by
  obtain ⟨hlt, rfl⟩ := List.getElem?_eq_some_iff.mp hk
  have hsplit : l.take k ++ l[k] :: l.drop (k + 1) = l := by
    rw [List.getElem_cons_drop, List.take_append_drop]
  conv_lhs => rw [← hsplit]
  rw [List.flatMap_append, List.flatMap_cons, hsplit,
    List.getElem?_append_right (Nat.le_add_right _ _), Nat.add_sub_cancel_left,
    List.getElem?_append_left hi]

/-- The places at which lists put together begin. -/
private theorem bases_aux {β : Type} (groups : List (List β)) (found : Array Nat) (n k : Nat)
    (hk : k < groups.length) :
    (groups.foldl (fun (acc : Array Nat × Nat) g => (acc.1.push acc.2, acc.2 + g.length))
      (found, n)).1[found.size + k]? = some (n + (groups.take k).flatten.length) := by
  induction groups generalizing found n k with
  | nil => simp at hk
  | cons g groups ih =>
    rw [List.foldl_cons]
    cases k with
    | zero =>
      -- what has been found is only ever added to
      have hkeep : ∀ (gs : List (List β)) (a : Array Nat × Nat) (i : Nat), i < a.1.size →
          (gs.foldl (fun (acc : Array Nat × Nat) g => (acc.1.push acc.2, acc.2 + g.length))
            a).1[i]? = a.1[i]? := by
        intro gs
        induction gs with
        | nil => intro a i _; rfl
        | cons g gs ih =>
          intro a i hi
          rw [List.foldl_cons, ih _ _ (by simp; omega), Array.getElem?_push_lt hi,
            Array.getElem?_eq_getElem hi]
      rw [hkeep _ _ _ (by simp)]
      simp
    | succ k =>
      have h := ih (found.push n) (n + g.length) k (by simpa using hk)
      rw [Array.size_push] at h
      rw [show found.size + (k + 1) = found.size + 1 + k by omega, h]
      simp [Nat.add_assoc]

namespace Forms

/-- How many forms stand before those of a phrase. -/
def base (p : Phrase) : Nat :=
  ((Phrase.all.take p.ctorIdx).flatMap ofPhrase).length

/-- The number of a form. -/
def number (p : Phrase) (f : Form) : Nat := base p + (ofPhrase p).idxOf f

/-- What stands under the number of a form. -/
def entryOf (p : Phrase) (f : Form) : FormEntry where
  form := f
  complete := f.complete
  moves := (f.moves.map fun m => (m.1, number p m.2)).toArray
  first := firstOfSteps firstSets f.steps

private theorem build_bases (p : Phrase) :
    (((Phrase.all.map ofPhrase).foldl
      (fun (acc : Array Nat × Nat) g => (acc.1.push acc.2, acc.2 + g.length))
      (#[], 0)).1[p.ctorIdx]?).getD 0 = base p := by
  have h := bases_aux (Phrase.all.map ofPhrase) #[] 0 p.ctorIdx
    (by simpa using p.ctorIdx_lt_count)
  rw [Array.size_empty, Nat.zero_add, Nat.zero_add] at h
  rw [h, Option.getD_some, base, ← List.map_take, List.flatMap_def]

theorem entries_eq :
    forms.entries = (Phrase.all.flatMap fun p => (ofPhrase p).map (entryOf p)).toArray := by
  simp only [forms, build, ← List.map_prod_left_eq_zip, List.flatMap_map, build_bases]
  rfl

theorem startsOf_eq (p : Phrase) :
    forms.startsOf p = ((Form.starts p).map (number p)).eraseDups.toArray := by
  simp only [startsOf, forms, build, ← List.map_prod_left_eq_zip, List.map_map, build_bases,
    List.getElem?_toArray, List.getElem?_map, Phrase.getElem?_all]
  rfl

/-- A reader finds a form under its number. -/
theorem entry_number {p : Phrase} {f : Form} (h : f ∈ ofPhrase p) :
    forms.entry (number p f) = entryOf p f := by
  have hi : (ofPhrase p).idxOf f < ((ofPhrase p).map (entryOf p)).length := by
    simpa using List.idxOf_lt_length_of_mem h
  have hget := getElem?_flatMap_aux (fun p => (ofPhrase p).map (entryOf p))
    (Phrase.getElem?_all p) hi
  have hbase : base p =
      ((Phrase.all.take p.ctorIdx).flatMap fun p => (ofPhrase p).map (entryOf p)).length := by
    simp only [base, List.length_flatMap, List.length_map]
  rw [entry, entries_eq, List.getElem?_toArray, number, hbase, hget, List.getElem?_map,
    List.getElem?_eq_getElem (List.idxOf_lt_length_of_mem h), List.getElem_idxOf]
  rfl

/-- The alternatives of a phrase are found under the numbers of its starts. -/
theorem entry_of_mem_startsOf {p : Phrase} {n : Nat} (h : n ∈ forms.startsOf p) :
    ∃ f ∈ Form.starts p, n = number p f ∧ forms.entry n = entryOf p f := by
  rw [startsOf_eq, List.mem_toArray, List.mem_eraseDups] at h
  obtain ⟨f, hf, rfl⟩ := List.mem_map.mp h
  exact ⟨f, hf, rfl, entry_number (Form.mem_ofPhrase_of_mem_starts hf)⟩

/-! ## The end of a text -/

/-- Only a program can be empty. -/
private theorem rule_complete :
    ∀ p ∈ Phrase.all, ∀ a ∈ p.rule, a.steps.all (·.optional) = true → p = .program := by
  decide +kernel

/-- No step of a rule is the end of the text, and only a file holds a program. -/
private theorem rule_symbols :
    ∀ p ∈ Phrase.all, ∀ a ∈ p.rule, ∀ s ∈ a.steps,
      s.symbol ≠ .token .endOfFile ∧ (s.symbol = .phrase .program → p = .file) := by
  decide +kernel

theorem eq_file_of_program {p : Phrase} {a : Alternative} {s : Step} (ha : a ∈ p.rule)
    (hs : s ∈ a.steps) (h : s.symbol = .phrase .program) : p = .file :=
  (rule_symbols p p.mem_all a ha s hs).2 h

theorem eq_program_of_complete {p : Phrase} {n : Nat} (h : n ∈ forms.startsOf p)
    (hc : (forms.entry n).complete = true) : p = .program := by
  obtain ⟨f, hf, -, he⟩ := entry_of_mem_startsOf h
  obtain ⟨a, ha, rfl⟩ := List.mem_map.mp hf
  rw [he] at hc
  exact rule_complete p p.mem_all a ha hc

theorem moves_symbol {p : Phrase} {n : Nat} (h : n ∈ forms.startsOf p) {m : Symbol × Nat}
    (hm : m ∈ (forms.entry n).moves) :
    m.1 ≠ .token .endOfFile ∧ (m.1 = .phrase .program → p = .file) := by
  obtain ⟨f, hf, -, he⟩ := entry_of_mem_startsOf h
  obtain ⟨a, ha, rfl⟩ := List.mem_map.mp hf
  rw [he, entryOf, List.mem_toArray, List.mem_map] at hm
  obtain ⟨m', hm', rfl⟩ := hm
  obtain ⟨s, hs, hsym⟩ := Form.mem_moves hm'
  rw [← hsym]
  exact rule_symbols p p.mem_all a ha s hs

end Forms

end SourceShelf.Java
