import SourceShelf.Java.Reader
import SourceShelf.Proofs.Java.Stacks

/-!
# The steps of a reader

`After m r Q` says that the step `m` takes the reader `r` to one of which `Q` holds,
with the result of the step.  There is one rule for each way in which steps are put
together; `after_forIn_left` is the only induction over a loop.

`Reader.Sound` is the invariant of a reader: its automaton and its stacks are sound,
and the reading that it would give is a faulty one or follows the grammar
(`Finished`).  `Good a r` adds that the states of `a` are still there, so that what was
found out about them before a step holds after it.

* `after_push`, `after_goto`, `after_merge`, `after_mergeBefore`: the steps that others
  are made of.
-/

namespace SourceShelf.Java

namespace Reader

/-! ## What holds after a step -/

/-- The step takes a reader to one of which `Q` holds, with the result of the step. -/
def After {α : Type} (m : Step α) (r : Reader) (Q : α → Reader → Prop) : Prop :=
  Q (m.run r).1 (m.run r).2

variable {α β : Type} {r : Reader} {Q : α → Reader → Prop}

theorem after_pure {x : α} (h : Q x r) : After (pure x) r Q := h

theorem after_bind {m : Step β} {f : β → Step α} (h : After m r fun x r' => After (f x) r' Q) :
    After (m >>= f) r Q := h

theorem After.mono {P : α → Reader → Prop} {m : Step α} (h : After m r P)
    (hPQ : ∀ x r', P x r' → Q x r') : After m r Q := hPQ _ _ h

theorem After.bind {m : Step β} {P : β → Reader → Prop} {f : β → Step α} (h : After m r P)
    (hf : ∀ x r', P x r' → After (f x) r' Q) : After (m >>= f) r Q := hf _ _ h

theorem after_get {f : Reader → Step α} (h : After (f r) r Q) : After (get >>= f) r Q := h

theorem after_modify {f : Reader → Reader} {Q : Unit → Reader → Prop} (h : Q () (f r)) :
    After (modify f) r Q := h

theorem after_discard {m : Step β} {P : Reader → Prop} (h : After m r fun _ r' => P r') :
    After (discard m) r fun _ r' => P r' := h

/-- A loop takes its first turn, and then the others unless it is left. -/
theorem after_forIn_cons {x : β} {l : List β} {b : α} {f : β → α → Step (ForInStep α)}
    (h : After (f x b) r fun s r' =>
      match s with
      | .done b' => Q b' r'
      | .yield b' => After (forIn l b' f) r' Q) : After (forIn (x :: l) b f) r Q := by
  rw [List.forIn_cons]
  refine h.bind fun s r' hs => ?_
  cases s <;> exact hs

/-- A loop that goes on keeps what each turn keeps; one that is left may keep less. -/
theorem after_forIn_left {l : List β} {b : α} {f : β → α → Step (ForInStep α)}
    (I : α → Reader → Prop) (hb : I b r) (hI : ∀ b r, I b r → Q b r)
    (hf : ∀ x ∈ l, ∀ b r, I b r → After (f x b) r fun s r' =>
      match s with
      | .done b' => Q b' r'
      | .yield b' => I b' r') : After (forIn l b f) r Q := by
  induction l generalizing b r with
  | nil => exact hI b r hb
  | cons x l ih =>
    refine after_forIn_cons ((hf x List.mem_cons_self b r hb).mono fun s r' hs => ?_)
    cases s with
    | done b' => exact hs
    | yield b' => exact ih hs fun y hy => hf y (List.mem_cons_of_mem x hy)

/-- A loop keeps what each turn keeps. -/
theorem after_forIn {l : List β} {b : α} {f : β → α → Step (ForInStep α)}
    (I : α → Reader → Prop) (hb : I b r)
    (hf : ∀ x ∈ l, ∀ b r, I b r → After (f x b) r fun s => I s.value) :
    After (forIn l b f) r I :=
  after_forIn_left I hb (fun _ _ h => h) fun x hx b r h => (hf x hx b r h).mono fun s _ hs => by
    cases s <;> exact hs

theorem after_forIn_range {n : Nat} {b : α} {f : Nat → α → Step (ForInStep α)}
    (I : α → Reader → Prop) (hb : I b r)
    (hf : ∀ x b r, I b r → After (f x b) r fun s => I s.value) :
    After (forIn [0:n] b f) r I := by
  rw [Std.Legacy.Range.forIn_eq_forIn_range']
  exact after_forIn I hb fun x _ => hf x

/-- A loop that is left after a number of turns: `I` says how many are still to come. -/
theorem after_forIn_leave {l : List β} {b : α} {f : β → α → Step (ForInStep α)}
    (I : Nat → α → Reader → Prop) {n : Nat} (hb : I n b r) (hn : n < l.length)
    (hyield : ∀ n x b r, I (n + 1) b r →
      After (f x b) r fun s r' => ∃ b', s = .yield b' ∧ I n b' r')
    (hdone : ∀ x b r, I 0 b r → After (f x b) r fun s r' => ∃ b', s = .done b' ∧ Q b' r') :
    After (forIn l b f) r Q := by
  induction l generalizing n b r with
  | nil => exact absurd hn (Nat.not_lt_zero n)
  | cons x l ih =>
    refine after_forIn_cons ?_
    cases n with
    | zero =>
      refine (hdone x b r hb).mono fun s r' hs => ?_
      obtain ⟨b', rfl, hs⟩ := hs
      exact hs
    | succ n =>
      refine (hyield n x b r hb).mono fun s r' hs => ?_
      obtain ⟨b', rfl, hs⟩ := hs
      exact ih hs (Nat.lt_of_succ_lt_succ hn)

theorem after_forIn_range_leave {l : Nat} {b : α} {f : Nat → α → Step (ForInStep α)}
    (I : Nat → α → Reader → Prop) {n : Nat} (hb : I n b r) (hn : n < l)
    (hyield : ∀ n x b r, I (n + 1) b r →
      After (f x b) r fun s r' => ∃ b', s = .yield b' ∧ I n b' r')
    (hdone : ∀ x b r, I 0 b r → After (f x b) r fun s r' => ∃ b', s = .done b' ∧ Q b' r') :
    After (forIn [0:l] b f) r Q := by
  rw [Std.Legacy.Range.forIn_eq_forIn_range']
  refine after_forIn_leave I hb ?_ hyield hdone
  simpa [Std.Legacy.Range.size] using hn

/-! ## The invariant -/

/-- The trees of a file: a program, and only what may stand between symbols around it. -/
def IsFile (parts : List Tree) : Prop :=
  ∃ before inner behind, parts = before ++ inner ++ behind ∧ Phrase.program.Derived inner ∧
    (∀ t ∈ before, Between [t]) ∧ ∀ t ∈ behind, Between [t]

/-- A reading of a text: a faulty one, or a program that follows the grammar. -/
def Finished (p : Part) : Prop :=
  ∃ t, p.trees = [t] ∧ (t.isFaulty = true ∨ ∃ parts, t = .node .program parts ∧ IsFile parts)

/-- What holds of a reader before and after every step. -/
structure Sound (r : Reader) : Prop where
  automaton : r.automaton.Sound
  heads : ∀ h ∈ r.heads, h.node.Sound r.automaton
  finished : ∀ p ∈ r.finished, Finished p

/-- A sound reader that has the states of an automaton. -/
structure Good (a : Automaton) (r : Reader) : Prop where
  sound : r.Sound
  le : a ≤ r.automaton

/-- The stack with a number. -/
def headAt (r : Reader) (v : Nat) : Head := r.heads[v]?.getD default

variable {a : Automaton}

theorem Sound.good (h : r.Sound) : Good r.automaton r := ⟨h, Automaton.le_rfl⟩

theorem Good.trans {b : Automaton} (hab : a ≤ b) (h : Good b r) : Good a r :=
  ⟨h.sound, Automaton.le_trans hab h.le⟩

theorem Sound.headAt (h : r.Sound) (v : Nat) : (r.headAt v).node.Sound r.automaton := by
  unfold Reader.headAt
  cases hv : r.heads[v]? with
  | none => exact Node.Sound.default
  | some head => exact h.heads head (Array.mem_of_getElem? hv)

/-! ## Stacks and their numbers -/

theorem after_head {v : Nat} {Q : Head → Reader → Prop} (h : Q (r.headAt v) r) :
    After (head v) r Q := h

theorem after_headCount {Q : Nat → Reader → Prop} (h : Q r.heads.size r) :
    After headCount r Q := h

theorem after_actions {state : Nat} {w : Token} {Q : List Action → Reader → Prop}
    (h : Q ((r.automaton.state state).actions w) r) : After (actions state w) r Q := h

/-- A stack is changed and the others stay. -/
theorem after_modifyHead {v : Nat} {f : Head → Head} (h : Good a r)
    (hf : (f (r.headAt v)).node.Sound r.automaton) :
    After (modifyHead v f) r fun _ r' => Good a r' ∧ r'.automaton = r.automaton ∧
      r'.fresh = r.fresh ∧ r'.heads.size = r.heads.size ∧
      (v < r.heads.size → r'.headAt v = f (r.headAt v)) ∧
      ∀ w, w ≠ v → r'.headAt w = r.headAt w := by
  refine after_modify ?_
  refine ⟨⟨⟨h.sound.automaton, ?_, h.sound.finished⟩, h.le⟩, rfl, rfl, by simp, ?_, ?_⟩
  · intro head hhead
    obtain ⟨i, hi, rfl⟩ := Array.mem_iff_getElem.mp hhead
    rw [Array.size_modify] at hi
    rw [Array.getElem_modify]
    split
    · rename_i hvi
      subst hvi
      have hat : r.headAt v = r.heads[v] := by
        rw [headAt, Array.getElem?_eq_getElem hi]
        rfl
      rw [← hat]
      exact hf
    · exact h.sound.heads _ (Array.getElem_mem hi)
  · intro hv
    simp [headAt, hv, Array.getElem_modify]
  · intro w hw
    simp [headAt, Array.getElem?_modify, Ne.symm hw]

theorem after_addHead {head : Head} (h : Good a r) (hhead : head.node.Sound r.automaton) :
    After (addHead head) r fun _ r' => Good a r' ∧ r'.automaton = r.automaton ∧
      r'.heads.size = r.heads.size + 1 ∧ r'.headAt r.heads.size = head ∧
      ∀ w < r.heads.size, r'.headAt w = r.headAt w := by
  refine after_modify ?_
  refine ⟨⟨⟨h.sound.automaton, ?_, h.sound.finished⟩, h.le⟩, rfl, by simp, by simp [headAt], ?_⟩
  · intro head' hmem
    rcases Array.mem_push.mp hmem with hmem | rfl
    · exact h.sound.heads head' hmem
    · exact hhead
  · intro w hw
    rw [headAt, Array.getElem?_push_lt hw, headAt, Array.getElem?_eq_getElem hw]

/-- A stack is dropped; those before it stay where they are. -/
theorem after_removeHead {v : Nat} (h : Good a r) :
    After (removeHead v) r fun _ r' => Good a r' ∧ r'.automaton = r.automaton ∧
      (v ≤ r.heads.size → v ≤ r'.heads.size) ∧ ∀ w < v, r'.headAt w = r.headAt w := by
  refine after_modify ?_
  refine ⟨⟨⟨h.sound.automaton, ?_, h.sound.finished⟩, h.le⟩, rfl, ?_, ?_⟩
  · intro head hmem
    refine h.sound.heads head ?_
    simp only [Array.eraseIdxIfInBounds] at hmem
    split at hmem
    · exact Array.mem_of_mem_eraseIdx hmem
    · exact hmem
  · intro hv
    simp only [Array.eraseIdxIfInBounds]
    split
    · rw [Array.size_eraseIdx]
      omega
    · exact hv
  · intro w hw
    simp only [headAt, Array.eraseIdxIfInBounds]
    split
    · rw [Array.getElem?_eraseIdx, if_pos hw]
    · rfl

/-- A part is put on a stack that it fits. -/
theorem after_push {v state : Nat} {part : Option Part} (h : Good a r)
    (hfits : Fits r.automaton (r.headAt v).node.mark.state state part) :
    After (push v part state) r fun _ r' => Good a r' ∧ r'.automaton = r.automaton ∧
      r'.heads.size = r.heads.size ∧
      (v < r.heads.size →
        ∃ id, (r'.headAt v).node = (r.headAt v).node.push id state part) ∧
      ∀ w, w ≠ v → r'.headAt w = r.headAt w := by
  refine after_get (after_bind (after_modify ?_))
  generalize hr₁ : ({ r with fresh := r.fresh + 1 } : Reader) = r₁
  have hgood : Good a r₁ := by
    subst hr₁
    exact ⟨⟨h.sound.automaton, h.sound.heads, h.sound.finished⟩, h.le⟩
  have hsame : r₁.automaton = r.automaton ∧ r₁.heads = r.heads := by
    subst hr₁
    exact ⟨rfl, rfl⟩
  have hat : ∀ w, r₁.headAt w = r.headAt w := by
    intro w
    rw [headAt, headAt, hsame.2]
  refine (after_modifyHead hgood ?_).mono ?_
  · show ((r₁.headAt v).node.push r.fresh state part).Sound r₁.automaton
    rw [hat, hsame.1]
    exact (h.sound.headAt v).push hfits
  · rintro - r' ⟨hgood', hautomaton, -, hsize, hself, hother⟩
    refine ⟨hgood', hautomaton.trans hsame.1, by rw [hsize, hsame.2], fun hv => ?_, fun w hw => ?_⟩
    · refine ⟨r.fresh, ?_⟩
      rw [hself (by rwa [hsame.2]), hat]
    · rw [hother w hw, hat]

/-- Where a state leads; the stacks stay as they are. -/
theorem after_goto {state : Nat} {x : Symbol} (h : Good a r) :
    After (goto state x) r fun next r' => Good a r' ∧ r.automaton ≤ r'.automaton ∧
      r'.heads = r.heads ∧ ∀ m ∈ next, r'.automaton.LeadsTo state x m := by
  obtain ⟨hsound, hle, hleads⟩ := h.sound.automaton.goto state x
  refine ⟨⟨⟨hsound, ?_, h.sound.finished⟩, Automaton.le_trans h.le hle⟩, hle, rfl, hleads⟩
  intro head hhead
  exact (h.sound.heads head hhead).mono h.sound.automaton hle

/-- Two stacks are joined if they have come to the same state; those before the second
one stay, but for the first. -/
theorem after_merge {v w : Nat} (h : Good a r) :
    After (merge v w) r fun _ r' => Good a r' ∧ r'.automaton = r.automaton ∧
      (w ≤ r.heads.size → w ≤ r'.heads.size) ∧
      ∀ u < w, u ≠ v → r'.headAt u = r.headAt u := by
  refine after_bind (after_head (after_bind (after_head ?_)))
  split
  · rename_i hmergeable
    have hstate : (r.headAt v).node.mark.state = (r.headAt w).node.mark.state := by
      have hnodes := (Bool.and_eq_true_iff.mp hmergeable).2
      have hboth := (Bool.and_eq_true_iff.mp hnodes).1
      exact eq_of_beq (Bool.and_eq_true_iff.mp hboth).1
    have hmerged : ((r.headAt v).node.merge (r.headAt w).node).Sound r.automaton :=
      (h.sound.headAt v).merge h.sound.automaton (h.sound.headAt w) hstate
    refine (after_modifyHead h hmerged).bind ?_
    rintro - r₁ ⟨hgood₁, hautomaton₁, -, hsize₁, -, hother₁⟩
    refine (after_removeHead hgood₁).bind ?_
    rintro - r₂ ⟨hgood₂, hautomaton₂, hsize₂, hother₂⟩
    refine ⟨hgood₂, hautomaton₂.trans hautomaton₁, fun hw => hsize₂ (hsize₁ ▸ hw), ?_⟩
    intro u hu hne
    exact (hother₂ u hu).trans (hother₁ u hne)
  · exact ⟨h, rfl, id, fun _ _ _ => rfl⟩

/-- The last stack is joined with an earlier one; a stack before it that is not meant
stays. -/
theorem after_mergeBefore {v w : Nat} (h : Good a r) (hv : v < w) (hw : w ≤ r.heads.size) :
    After (mergeBefore v w) r fun _ r' => Good a r' ∧ r'.automaton = r.automaton ∧
      v < r'.heads.size ∧ r'.headAt v = r.headAt v := by
  unfold mergeBefore
  refine (after_forIn (fun _ r' => Good a r' ∧ r'.automaton = r.automaton ∧ w ≤ r'.heads.size ∧
    r'.headAt v = r.headAt v) ⟨h, rfl, hw, rfl⟩ ?_).bind ?_
  · rintro j - - r₁ ⟨hgood₁, hautomaton₁, hsize₁, hself₁⟩
    split
    · rename_i hj
      refine (after_merge hgood₁).bind ?_
      rintro merged r₂ ⟨hgood₂, hautomaton₂, hsize₂, hother₂⟩
      have hne : v ≠ j := fun he => by simp [he] at hj
      have hall : Good a r₂ ∧ r₂.automaton = r.automaton ∧ w ≤ r₂.heads.size ∧
          r₂.headAt v = r.headAt v :=
        ⟨hgood₂, hautomaton₂.trans hautomaton₁, hsize₂ hsize₁, (hother₂ v hv hne).trans hself₁⟩
      split <;> exact hall
    · exact ⟨hgood₁, hautomaton₁, hsize₁, hself₁⟩
  · rintro ⟨done, -⟩ r₁ ⟨hgood₁, hautomaton₁, hsize₁, hself₁⟩
    have hall : Good a r₁ ∧ r₁.automaton = r.automaton ∧ v < r₁.heads.size ∧
        r₁.headAt v = r.headAt v := ⟨hgood₁, hautomaton₁, Nat.lt_of_lt_of_le hv hsize₁, hself₁⟩
    cases done <;> exact hall

/-- One stack takes the place of another. -/
theorem after_replaceHead {v w : Nat} (h : Good a r) :
    After (replaceHead v w) r fun _ r' => Good a r' := by
  unfold replaceHead
  split
  · exact h
  · refine after_bind (after_head (after_bind (after_head ?_)))
    have hsource : (r.headAt v).node.Sound r.automaton := h.sound.headAt v
    refine (after_modifyHead h hsource).bind ?_
    rintro - r₁ ⟨hgood₁, -⟩
    exact (after_removeHead hgood₁).mono fun _ _ h₂ => h₂.1

end Reader

end SourceShelf.Java
