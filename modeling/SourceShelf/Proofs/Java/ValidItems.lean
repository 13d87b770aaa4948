import Mathlib.Data.List.Perm.Subperm
import SourceShelf.Proofs.Java.EmptyText
import SourceShelf.Proofs.Java.Spreading

/-!
# Valid items

`kernelOf xs` are the items of a reader that has read the symbols `xs`, the last one
first, and `stateOf xs` is its state.  `Valid xs n k` and `Before t xs n k` say, from
the grammar alone, that the form `n` with `k` symbols read fits what was read, and that
the word `t` can come behind it there.

The state holds just the items that are valid: `validAt_items` in one direction,
`Valid.exists_mem` and `Before.exists_mem` in the other.  For the second the work of a
prediction has to come to its end.  That it does rests on a count: the items of a state
differ (`nodup_keys`), and there are few alternatives to place a dot in (`few_goings`).
-/

namespace SourceShelf.Java

/-- The items of a reader that has read some symbols, the last one first. -/
def kernelOf : List Symbol → List Item
  | [] => Automaton.startKernel
  | x :: xs => (State.ofKernel (kernelOf xs)).behind x

/-- The state of a reader that has read some symbols, the last one first. -/
def stateOf (xs : List Symbol) : State := State.ofKernel (kernelOf xs)

/-- All items of that state. -/
def itemsOf (xs : List Symbol) : List Item := State.items (kernelOf xs)

/-- A form fits what was read, with so many symbols of it read. -/
inductive Valid : List Symbol → Nat → Nat → Prop where
  | start {n : Nat} (hn : n ∈ forms.startsOf .file) : Valid [] n 0
  | predict {xs : List Symbol} {n n' k m : Nat} {q : Phrase} (h : Valid xs n k)
      (hm : (.phrase q, n') ∈ (forms.entry n).moves) (hstart : m ∈ forms.startsOf q) :
      Valid xs m 0
  | shift {xs : List Symbol} {n n' k : Nat} {x : Symbol} (h : Valid xs n k)
      (hm : (x, n') ∈ (forms.entry n).moves) : Valid (x :: xs) n' (k + 1)

/-- A word can come behind a form that fits what was read. -/
inductive Before (t : Token) : List Symbol → Nat → Nat → Prop where
  | start {n : Nat} (hn : n ∈ forms.startsOf .file) (ht : t = .endOfFile) : Before t [] n 0
  | first {xs : List Symbol} {n n' k m : Nat} {q : Phrase} (h : Valid xs n k)
      (hm : (.phrase q, n') ∈ (forms.entry n).moves)
      (ht : (forms.entry n').first.contains t = true) (hstart : m ∈ forms.startsOf q) :
      Before t xs m 0
  | open {xs : List Symbol} {n n' k m : Nat} {q : Phrase} (h : Before t xs n k)
      (hm : (.phrase q, n') ∈ (forms.entry n).moves) (hcomplete : (forms.entry n').complete = true)
      (hstart : m ∈ forms.startsOf q) : Before t xs m 0
  | shift {xs : List Symbol} {n n' k : Nat} {x : Symbol} (h : Before t xs n k)
      (hm : (x, n') ∈ (forms.entry n).moves) : Before t (x :: xs) n' (k + 1)

variable {xs : List Symbol} {n k : Nat} {t : Token} {i : Item}

theorem Before.valid (h : Before t xs n k) : Valid xs n k := by
  induction h with
  | start hn _ => exact .start hn
  | first h hm _ hstart => exact h.predict hm hstart
  | «open» _ hm _ hstart ih => exact ih.predict hm hstart
  | shift _ hm ih => exact ih.shift hm

/-! ## What a state holds is valid -/

/-- An item is valid, with what it says of the words behind it. -/
structure Item.ValidAt (xs : List Symbol) (i : Item) : Prop where
  valid : Valid xs i.form i.taken
  before : ∀ t, i.follow.contains t = true → Before t xs i.form i.taken
  proper : i.follow.Proper

/-- What a corner is made of.  It is said for any entry: for those of the grammar's forms, a
comparison by `rfl` would compute the forms. -/
theorem corner_eq_iff {q : Phrase} {e : FormEntry} {c : Corner} :
    ⟨q, e.first, e.complete⟩ = c ↔
      q = c.phrase ∧ c.follow = e.first ∧ c.isOpen = e.complete := by
  constructor
  · rintro rfl
    exact ⟨rfl, rfl, rfl⟩
  · obtain ⟨q', follow, isOpen⟩ := c
    rintro ⟨rfl, rfl, rfl⟩
    rfl

theorem Forms.cornerOf?_eq_some {m : Symbol × Nat} {c : Corner} :
    cornerOf? m = some c ↔ m.1 = .phrase c.phrase ∧ c.follow = (forms.entry m.2).first ∧
      c.isOpen = (forms.entry m.2).complete := by
  obtain ⟨x, n⟩ := m
  cases x with
  | token t => exact iff_of_false (fun h => nomatch h) fun h => nomatch h.1
  | phrase q =>
    rw [cornerOf?, Option.some.injEq, corner_eq_iff]
    simp only [Symbol.phrase.injEq]

/-- Where a corner comes from. -/
theorem Forms.mem_cornersOf_moves {p : Phrase} {c : Corner} :
    c ∈ forms.cornersOf p ↔ ∃ n ∈ forms.startsOf p, ∃ n', (.phrase c.phrase, n') ∈
      (forms.entry n).moves ∧ c.follow = (forms.entry n').first ∧
        c.isOpen = (forms.entry n').complete := by
  rw [cornersOf_eq, Array.mem_flatMap]
  simp only [Array.mem_filterMap, cornerOf?_eq_some]
  constructor
  · rintro ⟨n, hn, ⟨x, n'⟩, hm, rfl, hc⟩
    exact ⟨n, hn, n', hm, hc⟩
  · rintro ⟨n, hn, n', hm, hc⟩
    exact ⟨n, hn, (.phrase c.phrase, n'), hm, rfl, hc⟩

theorem Forms.exists_corner {p q : Phrase} {n n' : Nat} (hn : n ∈ forms.startsOf p)
    (hm : (.phrase q, n') ∈ (forms.entry n).moves) :
    ∃ c ∈ forms.cornersOf p, c.phrase = q ∧ c.follow = (forms.entry n').first ∧
      c.isOpen = (forms.entry n').complete := by
  obtain ⟨c, hc⟩ : ∃ c : Corner, ⟨q, (forms.entry n').first, (forms.entry n').complete⟩ = c :=
    ⟨_, rfl⟩
  obtain ⟨rfl, hparts⟩ := corner_eq_iff.mp hc
  exact ⟨c, mem_cornersOf_moves.mpr ⟨n, hn, n', hm, hparts⟩, rfl, hparts⟩

/-- Predictions are valid if the items are that they start from. -/
theorem validAt_predicted (h : ∀ i ∈ kernelOf xs, i.ValidAt xs)
    (hi : i ∈ State.predicted (kernelOf xs)) : i.ValidAt xs := by
  have hkernel : ∀ i ∈ kernelOf xs, i.follow.Proper := fun i hi => (h i hi).proper
  obtain ⟨⟨p, s⟩, hp, hi⟩ := List.mem_flatMap.mp hi
  obtain ⟨n, hn, rfl⟩ := List.mem_map.mp hi
  have hn : n ∈ forms.startsOf p := Array.mem_toList_iff.mp hn
  have hclosing : State.Closing (fun q => ∀ m ∈ forms.startsOf q, Valid xs m 0)
      (fun q t => ∀ m ∈ forms.startsOf q, Before t xs m 0) := by
    refine ⟨fun q hq c hc m hm => ?_, fun q hq c hc t ht m hm => ?_,
      fun q hq c hc hopen t ht m hm => ?_⟩ <;>
      obtain ⟨n, hn, n', hmove, hfollow, hcomplete⟩ := Forms.mem_cornersOf_moves.mp hc
    · exact (hq n hn).predict hmove hm
    · exact .first (hq n hn) hmove (hfollow ▸ ht) hm
    · exact .open (ht n hn) hmove (hcomplete ▸ hopen) hm
  obtain ⟨hvalid, hbefore⟩ := State.predict_least hkernel hclosing
    (fun i hi q n' hm m hstart => (h i hi).valid.predict hm hstart)
    (fun i hi q n' hm t ht m hstart => by
      rcases State.contains_atStart.mp ht with hfirst | ⟨hcomplete, hfollow⟩
      · exact .first (h i hi).valid hm hfirst hstart
      · exact .open ((h i hi).before t hfollow) hm hcomplete hstart) hp
  exact {
    valid := hvalid n hn
    before := fun t ht => hbefore t ht n hn
    proper := State.proper_of_mem_predict hkernel hp }

theorem validAt_kernelOf (xs : List Symbol) : ∀ i ∈ kernelOf xs, i.ValidAt xs := by
  induction xs with
  | nil =>
    intro i hi
    obtain ⟨n, hn, rfl⟩ := List.mem_map.mp hi
    have hn : n ∈ forms.startsOf .file := Array.mem_toList_iff.mp hn
    exact {
      valid := .start hn
      before := fun t ht => .start hn (TokenSet.eq_of_contains_single ht)
      proper := TokenSet.proper_single _ }
  | cons x xs ih =>
    have hitems : ∀ j ∈ State.items (kernelOf xs), j.ValidAt xs := fun j hj =>
      (List.mem_append.mp hj).elim (ih j) (validAt_predicted ih)
    rw [kernelOf, State.behind_ofKernel]
    refine Item.forall_foldl_insert (fun i j hform htaken hi hj => ?_) (fun i hi => ?_)
      (fun i hi => nomatch hi)
    · exact {
        valid := hj.valid
        before := fun t ht => by
          rw [TokenSet.contains_union, Bool.or_eq_true] at ht
          refine ht.elim (hj.before t) fun ht => ?_
          rw [← hform, ← htaken]
          exact hi.before t ht
        proper := hj.proper.union hi.proper }
    · obtain ⟨j, hj, hi⟩ := List.mem_flatMap.mp hi
      obtain ⟨⟨y, n⟩, hfound, rfl⟩ := List.mem_map.mp hi
      obtain ⟨hmove, hindex⟩ := List.mem_filter.mp hfound
      have hm : (y, n) ∈ (forms.entry j.form).moves := Array.mem_toList_iff.mp hmove
      have hyx : y = x :=
        Symbol.eq_of_index (of_decide_eq_true hindex) (Forms.isProper_of_mem_moves hm)
      rw [← hyx]
      obtain ⟨hvalid, hbefore, hproper⟩ := hitems j hj
      have hshift : Valid (y :: xs) n (j.taken + 1) := hvalid.shift hm
      have hwords : ∀ t, j.follow.contains t = true → Before t (y :: xs) n (j.taken + 1) :=
        fun t ht => (hbefore t ht).shift hm
      exact ⟨hshift, hwords, hproper⟩

/-- Every item of a state is valid. -/
theorem validAt_items (h : i ∈ itemsOf xs) : i.ValidAt xs :=
  (List.mem_append.mp h).elim (validAt_kernelOf xs i) (validAt_predicted (validAt_kernelOf xs))

theorem proper_kernelOf (xs : List Symbol) : ∀ i ∈ kernelOf xs, i.follow.Proper :=
  fun i hi => (validAt_kernelOf xs i hi).proper

/-! ## A state has few items -/

/-- What items of one state differ in. -/
def Item.key (i : Item) : Nat × Nat := (i.form, i.taken)

namespace Item

theorem before_iff {a b : Item} :
    a.before b = true ↔ a.form < b.form ∨ a.form = b.form ∧ a.taken < b.taken := by
  simp [before]

/-- Items stand in the order of their forms. -/
def Sorted (l : List Item) : Prop := l.Pairwise fun a b => a.before b = true

theorem Sorted.insert {l : List Item} (h : Sorted l) (i : Item) : Sorted (i.insert l) := by
  induction l with
  | nil => exact List.pairwise_singleton _ i
  | cons j l ih =>
    obtain ⟨hj, hl⟩ := List.pairwise_cons.mp h
    rw [Item.insert]
    split
    · exact List.pairwise_cons.mpr ⟨fun b hb => before_iff.mpr (before_iff.mp (hj b hb)), hl⟩
    · rename_i hne
      split
      · rename_i hbefore
        refine List.pairwise_cons.mpr ⟨fun b hb => ?_, h⟩
        rcases List.mem_cons.mp hb with rfl | hb
        · exact hbefore
        · have hij := before_iff.mp hbefore
          have hjb := before_iff.mp (hj b hb)
          exact before_iff.mpr (by omega)
      · rename_i hafter
        refine List.pairwise_cons.mpr ⟨fun b hb => ?_, ih hl⟩
        have hji : j.before i = true := by
          rw [before_iff] at hafter
          exact before_iff.mpr (by omega)
        rcases mem_insert hb with rfl | hb | ⟨j', hj', -, -, rfl⟩
        · exact hji
        · exact hj b hb
        · exact before_iff.mpr (before_iff.mp (hj j' hj'))

theorem Sorted.nodup_keys {l : List Item} (h : Sorted l) : (l.map key).Nodup := by
  refine List.Pairwise.map key (fun a b hab hkey => ?_) h
  have hform : a.form = b.form := congrArg Prod.fst hkey
  have htaken : a.taken = b.taken := congrArg Prod.snd hkey
  have := before_iff.mp hab
  omega

end Item

theorem sorted_kernelOf (xs : List Symbol) : Item.Sorted (kernelOf xs) := by
  cases xs with
  | nil =>
    rw [kernelOf, State.startKernel_eq]
    exact List.pairwise_singleton _ _
  | cons x xs =>
    rw [kernelOf, State.behind_ofKernel]
    exact List.foldlRecOn _ _ List.Pairwise.nil fun _ hfound i _ => hfound.insert i

/-- Behind a step are the steps behind it. -/
theorem Form.eq_drop_of_mem_nextSteps {steps rest : List Step} {x : Symbol}
    (h : (x, rest) ∈ nextSteps steps) : ∃ j < steps.length, rest = steps.drop (j + 1) := by
  induction steps with
  | nil => cases h
  | cons s steps ih =>
    rcases List.mem_cons.mp h with heq | h
    · obtain ⟨-, rfl⟩ := Prod.mk.inj heq
      exact ⟨0, Nat.zero_lt_succ _, rfl⟩
    · split at h
      · obtain ⟨j, hj, rfl⟩ := ih h
        exact ⟨j + 1, Nat.succ_lt_succ hj, rfl⟩
      · cases h

/-- A valid form is an alternative with a dot, behind no fewer steps than symbols of it
have been read. -/
theorem Valid.exists_dot (h : Valid xs n k) :
    ∃ p, ∃ a ∈ p.rule, ∃ j ≤ a.steps.length, k ≤ j ∧ n = Forms.dot p a (a.steps.drop j) := by
  induction h with
  | start hn =>
    obtain ⟨a, ha, rfl⟩ := Forms.mem_startsOf.mp hn
    exact ⟨_, a, ha, 0, Nat.zero_le _, Nat.le_refl 0, rfl⟩
  | predict _ _ hstart _ =>
    obtain ⟨a, ha, rfl⟩ := Forms.mem_startsOf.mp hstart
    exact ⟨_, a, ha, 0, Nat.zero_le _, Nat.le_refl 0, rfl⟩
  | shift _ hm ih =>
    obtain ⟨p, a, ha, j, hj, hk, rfl⟩ := ih
    obtain ⟨rest, hnext, rfl⟩ := (Forms.mem_moves_dot ha (List.drop_suffix _ _)).mp hm
    obtain ⟨l, hl, rfl⟩ := Form.eq_drop_of_mem_nextSteps hnext
    rw [List.length_drop] at hl
    rw [List.drop_drop]
    exact ⟨p, a, ha, j + (l + 1), by omega, by omega, rfl⟩

/-- All alternatives with a dot, with every number of symbols that may have been read. -/
def allKeys : List (Nat × Nat) :=
  Phrase.all.flatMap fun p => p.rule.flatMap fun a =>
    (List.range (a.steps.length + 1)).flatMap fun j =>
      (List.range (j + 1)).map fun k => (Forms.dot p a (a.steps.drop j), k)

theorem Valid.mem_allKeys (h : Valid xs n k) : (n, k) ∈ allKeys := by
  obtain ⟨p, a, ha, j, hj, hk, rfl⟩ := h.exists_dot
  refine List.mem_flatMap.mpr ⟨p, p.mem_all, List.mem_flatMap.mpr ⟨a, ha, ?_⟩⟩
  refine List.mem_flatMap.mpr ⟨j, List.mem_range.mpr (Nat.lt_succ_of_le hj), ?_⟩
  exact List.mem_map.mpr ⟨k, List.mem_range.mpr (Nat.lt_succ_of_le hk), rfl⟩

/-- In how many ways a form goes on. -/
def waysOf (n : Nat) : Nat := (forms.entry n).moves.size

theorem waysOf_dot {p : Phrase} {a : Alternative} (ha : a ∈ p.rule) {rest : List Step}
    (hrest : rest <:+ a.steps) : waysOf (Forms.dot p a rest) = (Form.nextSteps rest).length := by
  rw [waysOf, Forms.entry_dot ha hrest]
  simp [Forms.entryOf, Form.moves, Form.withSteps]

/-- The ways to go on, from all alternatives with a dot. -/
private theorem sum_waysOf_aux :
    (Phrase.all.map fun p => (p.rule.map fun a =>
      ((List.range (a.steps.length + 1)).map fun j =>
        (j + 1) * (Form.nextSteps (a.steps.drop j)).length).sum).sum).sum ≤ 5000 := by
  decide +kernel

theorem sum_waysOf_allKeys : (allKeys.map fun m => waysOf m.1).sum ≤ 5000 := by
  refine Nat.le_trans (Nat.le_of_eq ?_) sum_waysOf_aux
  have hsum : ∀ {α : Type} (f : α → List Nat) (l : List α),
      (l.flatMap f).sum = (l.map fun a => (f a).sum).sum := by
    intro α f l
    rw [List.flatMap_def, List.sum_flatten, List.map_map]
    rfl
  simp only [allKeys, List.map_flatMap, List.map_map, hsum]
  refine congrArg List.sum (List.map_congr_left fun p _ => ?_)
  refine congrArg List.sum (List.map_congr_left fun a ha => ?_)
  refine congrArg List.sum (List.map_congr_left fun j _ => ?_)
  have hways : ((fun m : Nat × Nat => waysOf m.1) ∘
      fun k => (Forms.dot p a (a.steps.drop j), k)) =
        fun _ => (Form.nextSteps (a.steps.drop j)).length :=
    funext fun k => by rw [Function.comp_apply, waysOf_dot ha (List.drop_suffix j _)]
  rw [hways]
  simp

/-- A state goes on in few ways. -/
theorem few_goings (xs : List Symbol) : (State.goings (kernelOf xs)).length ≤ 5000 := by
  have hlength : (State.goings (kernelOf xs)).length =
      (((kernelOf xs).map Item.key).map fun m => waysOf m.1).sum := by
    simp [State.goings, List.length_flatMap, Item.key, waysOf, Function.comp_def]
  have hsub : (kernelOf xs).map Item.key ⊆ allKeys := by
    intro m hm
    obtain ⟨i, hi, rfl⟩ := List.mem_map.mp hm
    exact (validAt_kernelOf xs i hi).valid.mem_allKeys
  obtain ⟨keys, hperm, hsublist⟩ := (sorted_kernelOf xs).nodup_keys.subperm hsub
  rw [hlength, ← (hperm.map fun m => waysOf m.1).sum_eq]
  refine Nat.le_trans ?_ sum_waysOf_allKeys
  generalize waysOf = ways
  exact (hsublist.map fun m => ways m.1).sum_le_sum fun n _ => Nat.zero_le n

theorem few_goings_bound (xs : List Symbol) :
    (State.goings (kernelOf xs)).length + Phrase.count * (Token.count + 2) ≤
      State.spreadBound := by
  have hroom : 5000 + Phrase.count * (Token.count + 2) ≤ State.spreadBound := by decide +kernel
  have := few_goings xs
  omega

/-! ## What is valid is in the state -/

/-- What an item can start is in the state too, with the words that can come behind it. -/
theorem exists_start {q : Phrase} {n' m : Nat} (hi : i ∈ itemsOf xs)
    (hm : (.phrase q, n') ∈ (forms.entry i.form).moves) (hstart : m ∈ forms.startsOf q) :
    ∃ j ∈ itemsOf xs, j.form = m ∧ j.taken = 0 ∧
      ∀ t, (State.atStart i n').contains t = true → j.follow.contains t = true := by
  have hproper := proper_kernelOf xs
  have hpredicted : ∃ s, (q, s) ∈ State.predict (kernelOf xs) ∧
      ∀ t, (State.atStart i n').contains t = true → s.contains t = true := by
    rcases List.mem_append.mp hi with hi | hi
    · exact State.predict_start hproper hi hm
    · obtain ⟨⟨p, s⟩, hp, hi⟩ := List.mem_flatMap.mp hi
      obtain ⟨n, hn, rfl⟩ := List.mem_map.mp hi
      have hn : n ∈ forms.startsOf p := Array.mem_toList_iff.mp hn
      have hmove : (.phrase q, n') ∈ (forms.entry n).moves := hm
      obtain ⟨c, hc, hphrase, hfollow, hopen⟩ := Forms.exists_corner hn hmove
      obtain ⟨s', hs', hwords⟩ :=
        State.predict_closed hproper (few_goings_bound xs) hp hc
      refine ⟨s', hphrase ▸ hs', fun t ht => hwords t (State.contains_added.mpr ?_)⟩
      rw [hfollow, hopen]
      exact State.contains_atStart.mp ht
  obtain ⟨s, hs, hwords⟩ := hpredicted
  refine ⟨{ form := m, taken := 0, follow := s }, List.mem_append_right _ ?_, rfl, rfl, hwords⟩
  exact List.mem_flatMap.mpr ⟨_, hs, List.mem_map.mpr ⟨m, Array.mem_toList_iff.mpr hstart, rfl⟩⟩

/-- Joining items keeps every one of them, with its words. -/
theorem Item.exists_of_mem_insert {l : List Item} {i j : Item} (h : j = i ∨ j ∈ l) :
    ∃ j' ∈ i.insert l, j'.form = j.form ∧ j'.taken = j.taken ∧
      ∀ t, j.follow.contains t = true → j'.follow.contains t = true := by
  induction l with
  | nil =>
    obtain rfl := h.resolve_right List.not_mem_nil
    exact ⟨j, List.mem_singleton_self j, rfl, rfl, fun _ ht => ht⟩
  | cons a l ih =>
    rw [insert]
    split
    · rename_i hsame
      rcases h with rfl | h
      · refine ⟨_, List.mem_cons_self, hsame.1.symm, hsame.2.symm, fun t ht => ?_⟩
        simp [ht]
      · rcases List.mem_cons.mp h with rfl | h
        · exact ⟨_, List.mem_cons_self, rfl, rfl, fun t ht => by simp [ht]⟩
        · exact ⟨j, List.mem_cons_of_mem _ h, rfl, rfl, fun _ ht => ht⟩
    · split
      · exact ⟨j, List.mem_cons.mpr h, rfl, rfl, fun _ ht => ht⟩
      · by_cases hja : j = a
        · exact ⟨j, hja ▸ List.mem_cons_self, rfl, rfl, fun _ ht => ht⟩
        · obtain ⟨j', hj', hrest⟩ :=
            ih (h.imp_right fun h => (List.mem_cons.mp h).resolve_left hja)
          exact ⟨j', List.mem_cons_of_mem _ hj', hrest⟩

theorem Item.exists_of_mem_foldl_insert {l found : List Item} {j : Item}
    (h : j ∈ found ∨ j ∈ l) :
    ∃ j' ∈ l.foldl (fun found i => i.insert found) found, j'.form = j.form ∧
      j'.taken = j.taken ∧ ∀ t, j.follow.contains t = true → j'.follow.contains t = true := by
  induction l generalizing found j with
  | nil => exact ⟨j, h.resolve_right List.not_mem_nil, rfl, rfl, fun _ ht => ht⟩
  | cons i l ih =>
    rw [List.foldl_cons]
    by_cases hl : j ∈ l
    · exact ih (.inr hl)
    · have hfound : j = i ∨ j ∈ found := by
        rcases h with h | h
        · exact .inr h
        · exact .inl ((List.mem_cons.mp h).resolve_right hl)
      obtain ⟨j', hj', hform, htaken, hwords⟩ := exists_of_mem_insert hfound
      obtain ⟨j'', hj'', hform', htaken', hwords'⟩ := ih (.inl hj')
      exact ⟨j'', hj'', hform'.trans hform, htaken'.trans htaken,
        fun t ht => hwords' t (hwords t ht)⟩

/-- Behind a symbol that an item goes on with there is one that has read it. -/
theorem exists_behind {x : Symbol} {n' : Nat} (hi : i ∈ itemsOf xs)
    (hm : (x, n') ∈ (forms.entry i.form).moves) :
    ∃ j ∈ kernelOf (x :: xs), j.form = n' ∧ j.taken = i.taken + 1 ∧
      ∀ t, i.follow.contains t = true → j.follow.contains t = true := by
  rw [kernelOf, State.behind_ofKernel]
  refine Item.exists_of_mem_foldl_insert (j := { i with form := n', taken := i.taken + 1 })
    (.inr (List.mem_flatMap.mpr ⟨i, hi, List.mem_map.mpr ⟨(x, n'), ?_, rfl⟩⟩))
  exact List.mem_filter.mpr ⟨Array.mem_toList_iff.mpr hm, decide_eq_true rfl⟩

/-- A valid form is an item of the state. -/
theorem Valid.exists_mem (h : Valid xs n k) :
    ∃ i ∈ itemsOf xs, i.form = n ∧ i.taken = k := by
  induction h with
  | @start n hn =>
    refine ⟨{ form := n, taken := 0, follow := .single .endOfFile }, ?_, rfl, rfl⟩
    refine List.mem_append_left _ (List.mem_map.mpr ⟨n, ?_, rfl⟩)
    exact Array.mem_toList_iff.mpr hn
  | predict _ hm hstart ih =>
    obtain ⟨i, hi, rfl, rfl⟩ := ih
    obtain ⟨j, hj, hform, htaken, -⟩ := exists_start hi hm hstart
    exact ⟨j, hj, hform, htaken⟩
  | shift _ hm ih =>
    obtain ⟨i, hi, rfl, rfl⟩ := ih
    obtain ⟨j, hj, hform, htaken, -⟩ := exists_behind hi hm
    exact ⟨j, List.mem_append_left _ hj, hform, htaken⟩

/-- A word that can come behind a valid form is known to come there. -/
theorem Before.exists_mem (h : Before t xs n k) :
    ∃ i ∈ itemsOf xs, i.form = n ∧ i.taken = k ∧ i.follow.contains t = true := by
  induction h with
  | @start n hn ht =>
    refine ⟨{ form := n, taken := 0, follow := .single .endOfFile }, ?_, rfl, rfl, ?_⟩
    · refine List.mem_append_left _ (List.mem_map.mpr ⟨n, ?_, rfl⟩)
      exact Array.mem_toList_iff.mpr hn
    · rw [ht]
      exact TokenSet.contains_single _
  | first h hm ht hstart =>
    obtain ⟨i, hi, rfl, rfl⟩ := h.exists_mem
    obtain ⟨j, hj, hform, htaken, hwords⟩ := exists_start hi hm hstart
    exact ⟨j, hj, hform, htaken, hwords t (State.contains_atStart.mpr (.inl ht))⟩
  | «open» _ hm hcomplete hstart ih =>
    obtain ⟨i, hi, rfl, rfl, ht⟩ := ih
    obtain ⟨j, hj, hform, htaken, hwords⟩ := exists_start hi hm hstart
    exact ⟨j, hj, hform, htaken, hwords t (State.contains_atStart.mpr (.inr ⟨hcomplete, ht⟩))⟩
  | shift _ hm ih =>
    obtain ⟨i, hi, rfl, rfl, ht⟩ := ih
    obtain ⟨j, hj, hform, htaken, hwords⟩ := exists_behind hi hm
    exact ⟨j, List.mem_append_left _ hj, hform, htaken, hwords t ht⟩

end SourceShelf.Java
