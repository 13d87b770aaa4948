import Mathlib.Data.List.TakeWhile
import SourceShelf.Proofs.Java.Steps
import SourceShelf.Proofs.Java.Words

/-!
# What a reader finds follows the grammar

Every step of a reader keeps it sound.  A phrase is ended on a stack where an item is
at its end (`after_reduce`); a text is accepted where a file is at its end, or where
it was given up (`after_accept`); everything else puts on the stack what fits there,
or changes stacks as wholes.
-/

namespace SourceShelf.Java

namespace Reader

variable {a : Automaton} {r : Reader} {v : Nat}

/-! ## Ending a phrase -/

/-- The comments at the end of some parts are split off. -/
theorem splitExtras_spec (parts : List Part) :
    (splitExtras parts).1 ++ (splitExtras parts).2 = parts ∧
      ∀ e ∈ (splitExtras parts).2, e.extra = true := by
  have hsplit : parts = (parts.reverse.dropWhile (·.extra)).reverse ++
      (parts.reverse.takeWhile (·.extra)).reverse := by
    rw [← List.reverse_append, List.takeWhile_append_dropWhile, List.reverse_reverse]
  have hextra : ∀ e ∈ (parts.reverse.takeWhile (·.extra)).reverse, e.extra = true := by
    intro e he
    exact List.all_eq_true.mp List.all_takeWhile e (List.mem_reverse.mp he)
  unfold splitExtras
  generalize (parts.reverse.takeWhile (·.extra)).reverse = extras at hsplit hextra ⊢
  generalize (parts.reverse.dropWhile (·.extra)).reverse = core at hsplit
  subst hsplit
  refine ⟨?_, hextra⟩
  simp

theorem symbols_splitExtras (parts : List Part) :
    Part.symbols (splitExtras parts).1 = Part.symbols parts := by
  obtain ⟨hsplit, hextra⟩ := splitExtras_spec parts
  conv_rhs => rw [← hsplit]
  rw [Part.symbols_append, Part.symbols_of_extra hextra, List.append_nil]

/-- A phrase that was read, and what stands behind it. -/
structure IsReading (head : Phrase) (reading : Part × List Part) : Prop where
  kind : reading.1.kind = .symbol (.phrase head)
  extra : reading.1.extra = false
  reads : Reads (.phrase head) reading.1.trees
  behind : ∀ e ∈ reading.2, e.extra = true ∧ e.IsExtra

theorem isReading_of_slice {head : Phrase} {shown : List (Symbol × Token)} {parts : List Part}
    (hfine : ∀ p ∈ parts, p.Fine)
    (halt : ∃ alt ∈ head.rule, takes alt.steps (Part.symbols parts) ∧ shown = alt.shown)
    (at_ : Cursor) :
    IsReading head (Part.join (.symbol (.phrase head)) shown 0 at_ (splitExtras parts).1,
      (splitExtras parts).2) := by
  obtain ⟨alt, halt, htakes, rfl⟩ := halt
  obtain ⟨hsplit, hextra⟩ := splitExtras_spec parts
  have hcore : ∀ p ∈ (splitExtras parts).1, p ∈ parts := fun p hp =>
    hsplit ▸ List.mem_append_left _ hp
  have hbehind : ∀ p ∈ (splitExtras parts).2, p ∈ parts := fun p hp =>
    hsplit ▸ List.mem_append_right _ hp
  have hreads := Part.reads_join halt (symbols_splitExtras parts ▸ htakes)
    (fun p hp => hfine p (hcore p hp)) 0 at_
  refine ⟨rfl, rfl, hreads, fun e he => ⟨hextra e he, ?_⟩⟩
  cases hfine e (hbehind e he) with
  | extra _ h => exact h
  | symbol hnone =>
    rw [hextra e he] at hnone
    cases hnone

/-- Several parts that may stand between symbols are put on a stack. -/
theorem after_pushExtras {w state : Nat} {extras : List Part} (h : Good a r)
    (hw : w < r.heads.size) (hstate : (r.headAt w).node.mark.state = state)
    (hextras : ∀ e ∈ extras, e.extra = true ∧ e.IsExtra) :
    After (forIn extras PUnit.unit fun e _ => do
      push w (some e) state
      pure (ForInStep.yield PUnit.unit)) r
      fun _ r' => Good a r' ∧ r'.automaton = r.automaton ∧ r'.heads.size = r.heads.size ∧
        ∀ u, u ≠ w → r'.headAt u = r.headAt u := by
  refine (after_forIn (fun _ r' => Good a r' ∧ r'.automaton = r.automaton ∧
    r'.heads.size = r.heads.size ∧ (r'.headAt w).node.mark.state = state ∧
    ∀ u, u ≠ w → r'.headAt u = r.headAt u) ⟨h, rfl, rfl, hstate, fun _ _ => rfl⟩ ?_).mono ?_
  · rintro e he - r₁ ⟨hgood, hautomaton, hsize, hstate₁, hother⟩
    obtain ⟨hextra, hIsExtra⟩ := hextras e he
    refine (after_push hgood (.extra hstate₁ hextra hIsExtra)).bind ?_
    rintro - r₂ ⟨hgood₂, hautomaton₂, hsize₂, hself₂, hother₂⟩
    obtain ⟨id, hnode⟩ := hself₂ (by rwa [hsize])
    refine after_pure ⟨hgood₂, hautomaton₂.trans hautomaton, hsize₂.trans hsize, ?_, fun u hu => ?_⟩
    · rw [hnode, Node.mark_push_state]
    · rw [hother₂ u hu, hother u hu]
  · rintro - r' ⟨hgood, hautomaton, hsize, -, hother⟩
    exact ⟨hgood, hautomaton, hsize, hother⟩

/-- A phrase that was read is put on a new stack, with what stood behind it on top. -/
theorem after_addReading {below : Node} {head : Phrase} {part : Part} {extras : List Part}
    {next : Nat} (h : Good a r) (hv : v < r.heads.size) (hbelow : below.Sound r.automaton)
    (hleads : r.automaton.LeadsTo below.mark.state (.phrase head) next)
    (hreading : IsReading head (part, extras)) (preference : Int) (size : Nat) :
    After (do
      addHead { node := below, sizeAtError := size }
      push r.heads.size (some { part with preference }) next
      for e in extras do push r.heads.size (some e) next
      discard <| mergeBefore v r.heads.size) r
      fun _ r' => Good a r' ∧ v < r'.heads.size ∧ r'.headAt v = r.headAt v := by
  obtain ⟨hkind, hextra, hreads, hbehind⟩ := hreading
  refine (after_addHead h hbelow).bind ?_
  rintro - r₁ ⟨hgood₁, hautomaton₁, hsize₁, hself₁, hother₁⟩
  have hfits : Fits r₁.automaton (r₁.headAt r.heads.size).node.mark.state next
      (some { part with preference }) := by
    rw [hself₁, hautomaton₁]
    exact .symbol hleads hextra hkind hreads
  refine (after_push hgood₁ hfits).bind ?_
  rintro - r₂ ⟨hgood₂, -, hsize₂, hself₂, hother₂⟩
  obtain ⟨id, hnode⟩ := hself₂ (by omega)
  have hstate₂ : (r₂.headAt r.heads.size).node.mark.state = next := by
    rw [hnode, Node.mark_push_state]
  refine (after_pushExtras hgood₂ (by omega) hstate₂ hbehind).bind ?_
  rintro - r₃ ⟨hgood₃, -, hsize₃, hother₃⟩
  refine after_discard ((after_mergeBefore hgood₃ hv (by omega)).mono ?_)
  rintro - r₄ ⟨hgood₄, -, hv₄, hself₄⟩
  have hne : v ≠ r.heads.size := Nat.ne_of_lt hv
  exact ⟨hgood₄, hv₄, by rw [hself₄, hother₃ v hne, hother₂ v hne, hother₁ v hv]⟩

/-- A phrase is ended where an item is at its end; the stack itself stays. -/
theorem after_reduce (h : r.Sound) {red : Reduction} {i : Item} (hred : State.Ends red i)
    (hi : i ∈ (r.automaton.state (r.headAt v).node.mark.state).complete) :
    After (reduce v red) r fun _ r' =>
      Good r.automaton r' ∧ v < r'.heads.size ∧ r'.headAt v = r.headAt v := by
  obtain ⟨hpos, -, hitem, hcomplete⟩ := h.automaton.mem_complete hi
  have hv : v < r.heads.size := by
    by_contra hv
    have hdefault : r.headAt v = default := by
      rw [headAt, Array.getElem?_eq_none (Nat.le_of_not_lt hv)]
      rfl
    rw [hdefault] at hpos
    exact absurd hpos (Nat.not_succ_le_zero 0)
  have hpop := (h.headAt v).pop_item h.automaton hitem hcomplete
  rw [← hred.head, ← hred.taken, ← hred.shown] at hpop
  unfold reduce
  refine after_bind (after_headCount (after_bind (after_head (after_get ?_))))
  refine (after_forIn (fun _ r' => Good r.automaton r' ∧ v < r'.heads.size ∧
    r'.headAt v = r.headAt v) ⟨h.good, hv, rfl⟩ ?_).bind ?_
  · rintro ⟨below, ways⟩ hmem - r₁ ⟨hgood₁, hv₁, hself₁⟩
    obtain ⟨hbelow, hways⟩ := hpop _ hmem
    refine after_bind (after_headCount ?_)
    split
    · exact ⟨hgood₁, hv₁, hself₁⟩
    · have hreadings : ∀ reading ∈ ways.map fun parts =>
          (Part.join (.symbol (.phrase red.head)) red.shown 0 below.mark.cursor
            (splitExtras parts).1, (splitExtras parts).2), IsReading red.head reading := by
        intro reading hreading
        obtain ⟨parts, hparts, rfl⟩ := List.mem_map.mp hreading
        obtain ⟨hfine, halt⟩ := hways parts hparts
        exact isReading_of_slice hfine halt _
      dsimp only
      split
      · exact ⟨hgood₁, hv₁, hself₁⟩
      · rename_i first others heq
        rw [heq] at hreadings
        have hbest := List.foldlRecOn others
          (fun best next => if best.1.secondWins next.1 = true then next else best) (b := first)
          (motive := IsReading red.head) (hreadings first List.mem_cons_self)
          (fun best hbest next hnext => by
            split
            · exact hreadings next (List.mem_cons_of_mem first hnext)
            · exact hbest)
        generalize List.foldl _ first others = best at hbest ⊢
        obtain ⟨part, extras⟩ := best
        refine (after_goto hgood₁).bind ?_
        rintro next r₂ ⟨hgood₂, -, hheads₂, hleads⟩
        have hsize₂ : r₁.heads.size = r₂.heads.size := by rw [hheads₂]
        have hat₂ : r₂.headAt v = r.headAt v := by
          rw [← hself₁, headAt, headAt, hheads₂]
        cases next with
        | none => exact ⟨hgood₂, hsize₂ ▸ hv₁, hat₂⟩
        | some next =>
          have hbelow₂ : below.Sound r₂.automaton := hbelow.mono h.automaton hgood₂.le
          have hadd := after_addReading hgood₂ (hsize₂ ▸ hv₁) hbelow₂ (hleads next rfl) hbest
            (part.preference + red.preference) (r.headAt v).sizeAtError
          rw [hat₂] at hadd
          rw [hsize₂]
          exact hadd
  · rintro - r₁ hall
    exact hall

/-! ## Accepting a text -/

theorem splitExtras_of_top {around behind : List Part} {top : Part} (htop : top.extra = false)
    (hbehind : ∀ p ∈ behind, p.extra = true) :
    splitExtras (around ++ top :: behind) = (around ++ [top], behind) := by
  have hextras : ((around ++ top :: behind).reverse.takeWhile (·.extra)).reverse = behind := by
    have hreverse : (around ++ top :: behind).reverse =
        behind.reverse ++ top :: around.reverse := by
      simp
    have hall : ∀ p ∈ behind.reverse, p.extra = true :=
      fun p hp => hbehind p (List.mem_reverse.mp hp)
    rw [hreverse, List.takeWhile_append_of_pos hall,
      List.takeWhile_cons_of_neg (by simp [htop]), List.append_nil, List.reverse_reverse]
  unfold splitExtras
  rw [hextras]
  dsimp only
  have hparts : around ++ top :: behind = (around ++ [top]) ++ behind := by simp
  rw [hparts, List.length_append, Nat.add_sub_cancel, List.take_left]

theorem splitExtras_of_extra {parts : List Part} (h : ∀ p ∈ parts, p.extra = true) :
    (splitExtras parts).1 = [] := by
  have htake : parts.reverse.takeWhile (·.extra) = parts.reverse :=
    List.takeWhile_eq_self_iff.mpr fun p hp => h p (List.mem_reverse.mp hp)
  unfold splitExtras
  rw [htake]
  simp

/-- What may stand between symbols may do so tree by tree. -/
theorem between_of_mem {ts : List Tree} (h : Between ts) {t : Tree} (ht : t ∈ ts) :
    Between [t] := by
  cases h with
  | comment hword hlt =>
    obtain rfl := List.mem_singleton.mp ht
    exact .comment hword hlt
  | fault us =>
    obtain rfl := List.mem_singleton.mp ht
    exact .fault us
  | nothing => cases ht

theorem between_of_extras {parts : List Part} (h : ∀ p ∈ parts, p.IsExtra) :
    ∀ t ∈ parts.flatMap Part.trees, Between [t] := by
  intro t ht
  obtain ⟨p, hp, ht⟩ := List.mem_flatMap.mp ht
  exact between_of_mem (h p hp).between ht

/-- What the parts are that lie on a stack when a text is taken as a whole. -/
def IsWhole (parts : List Part) : Prop :=
  (∀ p ∈ parts, p.extra = true) ∨
    Node.IsText (fun around => Node.AllExtra around ∨ Node.SomeFaulty around) parts ∨
    Node.IsGivenUp parts

/-- The reading that a text with a program makes. -/
theorem finished_of_isText {around behind : List Part} {top : Part}
    (haround : Node.AllExtra around ∨ Node.SomeFaulty around)
    (hreads : Reads (.phrase .program) top.trees)
    (hbehind : ∀ p ∈ behind, p.extra = true ∧ p.IsExtra) {p : Part}
    (hp : p.trees = [.node .program (around.flatMap Part.trees ++
      (match top.trees with
        | [.node _ ts] => ts
        | [.error ts] => ts
        | ts => ts) ++ behind.flatMap Part.trees)]) : Finished p := by
  obtain ⟨alt, -, pieces, -, -, -, htrees⟩ := hreads.phrase_inv
  have htrees : top.trees = [.node .program (pieces.flatMap (·.shown alt.shown))] := htrees
  rw [htrees] at hp hreads
  dsimp only at hp
  refine ⟨_, hp, ?_⟩
  rcases haround with hextra | ⟨q, hq, hfaulty⟩
  · right
    exact ⟨_, rfl, _, _, _, rfl, hreads, between_of_extras hextra,
      between_of_extras fun p hp => (hbehind p hp).2⟩
  · left
    have haroundFaulty : Tree.anyFaulty (around.flatMap Part.trees) = true := by
      by_contra hnone
      have hnone := Tree.anyFaulty_flatMap.mp (Bool.not_eq_true _ ▸ hnone) q hq
      rw [hfaulty] at hnone
      cases hnone
    show Tree.anyFaulty _ = true
    rw [Tree.anyFaulty_append, Tree.anyFaulty_append, haroundFaulty]
    rfl

/-- A reading is kept, unless the one that is there wins. -/
theorem Good.finish (h : Good a r) {whole : Part} (hwhole : Finished whole) :
    Good a { r with
      accepted := r.accepted + 1
      finished :=
        match r.finished with
        | none => some whole
        | some old => if old.secondWins whole then some whole else some old } := by
  refine ⟨⟨h.sound.automaton, h.sound.heads, ?_⟩, h.le⟩
  intro p hp
  dsimp only at hp
  split at hp
  · exact Option.some.inj hp ▸ hwhole
  · rename_i old hold
    split at hp
    · exact Option.some.inj hp ▸ hwhole
    · exact Option.some.inj hp ▸ h.sound.finished old hold

/-- The parts of a stack are put together, around the last one that is not an extra. -/
theorem after_takeWhole {parts : List Part} {cursor : Cursor} (h : Good a r)
    (hparts : IsWhole parts) :
    After (match (splitExtras parts).1.getLast? with
      | none => pure (ForInStep.yield ())
      | some top => do
        let inner : List Tree :=
          match top.trees with
          | [.node _ ts] => ts
          | [.error ts] => ts
          | ts => ts
        let around := (splitExtras parts).1.dropLast
        let behind := (splitExtras parts).2
        let trees := around.flatMap Part.trees ++ inner ++ behind.flatMap Part.trees
        let whole : Part :=
          match top.kind with
          | .error =>
            { Part.join .error [] 0 cursor (around ++ behind) with trees := [.error trees] }
          | _ =>
            { top with
              trees := [.node .program trees]
              cost := (around ++ behind).foldl (fun n p => n + p.cost) top.cost
              preference := around.foldl (fun n p => n + p.preference) top.preference }
        modify fun r =>
          { r with
            accepted := r.accepted + 1
            finished :=
              match r.finished with
              | none => some whole
              | some old => if old.secondWins whole then some whole else some old }
        pure (ForInStep.yield ())) r fun _ r' => Good a r' := by
  rcases hparts with hextra | htext | hgiven
  · rw [splitExtras_of_extra hextra]
    exact h
  · obtain ⟨around, top, behind, rfl, haround, htop, hkind, hreads, hbehind⟩ := htext
    rw [splitExtras_of_top htop fun p hp => (hbehind p hp).1]
    dsimp only
    rw [List.getLast?_concat, List.dropLast_concat]
    dsimp only
    rw [hkind]
    exact after_bind (after_modify (h.finish (finished_of_isText haround hreads hbehind rfl)))
  · obtain ⟨around, top, behind, rfl, htop, hkind, hbehind⟩ := hgiven
    rw [splitExtras_of_top htop hbehind]
    dsimp only
    rw [List.getLast?_concat, List.dropLast_concat]
    dsimp only
    rw [hkind]
    exact after_bind (after_modify (h.finish ⟨_, rfl, .inl rfl⟩))

/-- Nothing lies on a stack that is not there. -/
theorem slices_default : Node.SlicesHold a IsWhole (default : Head).node.popAll := by
  refine Node.follow_induction (P := fun w => w.node.Sound a ∧ w.node.links = [] ∧ w.parts = [])
    (Q := Node.SlicesHold _ _) ?_ (fun _ _ hacc _ => hacc) ?_ _ ?_ (fun _ hs => nomatch hs)
  · rintro w ⟨-, hlinks, -⟩ - l hl
    rw [hlinks] at hl
    cases hl
  · rintro acc w hacc ⟨hsound, -, hparts⟩ -
    refine hacc.addSlice hsound (.inl ?_)
    rw [hparts]
    exact fun _ hp => nomatch hp
  · intro w hw
    obtain rfl := List.mem_singleton.mp hw
    exact ⟨Node.Sound.default, rfl, rfl⟩

/-- The whole of a stack is taken as a reading. -/
theorem after_accept {lookahead : Lexeme} (h : Good a r)
    (hword : lookahead.word = some .endOfFile)
    (hwhole : ∀ id, v < r.heads.size → Node.SlicesHold r.automaton IsWhole
      (Node.push id 0 (some (Part.ofLexeme lookahead true)) (r.headAt v).node).popAll) :
    After (accept v lookahead) r fun _ r' => Good a r' := by
  have heof : (Part.ofLexeme lookahead true).IsExtra := by
    refine .ending ?_ ?_ <;> simp [Part.ofLexeme, hword]
  have hfits : Fits r.automaton (r.headAt v).node.mark.state Head.lost
      (some (Part.ofLexeme lookahead true)) :=
    .lost rfl fun p hp _ => Option.some.inj hp ▸ heof
  unfold accept
  refine (after_push h hfits).bind ?_
  rintro - r₁ ⟨hgood₁, hautomaton₁, hsize₁, hself₁, hother₁⟩
  have hslices : Node.SlicesHold r.automaton IsWhole (r₁.headAt v).node.popAll := by
    by_cases hv : v < r.heads.size
    · obtain ⟨id, hnode⟩ := hself₁ hv
      rw [hnode]
      exact hwhole id hv
    · have hdefault : r₁.headAt v = default := by
        rw [headAt, Array.getElem?_eq_none (by omega)]
        rfl
      rw [hdefault]
      exact slices_default
  refine after_bind (after_head ?_)
  refine (after_forIn (fun _ r' => Good a r') hgood₁ ?_).bind ?_
  · rintro ⟨below, ways⟩ hmem - r₂ hgood₂
    obtain ⟨-, hways⟩ := hslices _ hmem
    refine (after_forIn (fun _ r' => Good a r') hgood₂ ?_).bind fun _ _ h' => h'
    intro parts hparts _ r₃ hgood₃
    exact after_takeWhole hgood₃ (hways parts hparts)
  · rintro - r₂ hgood₂
    exact (after_modifyHead hgood₂ (hgood₂.sound.headAt v)).mono fun _ _ h' => h'.1

/-! ## Losing the way and finding it -/

theorem after_betterExists {faulty : Bool} {cost : Nat} {P : Reader → Prop} (h : P r) :
    After (betterExists v faulty cost) r fun _ r' => P r' := by
  unfold betterExists
  refine after_get ?_
  split
  · exact h
  · exact h

/-- The stretch that was passed over before one goes back. -/
private theorem fits_fault {n under : Node} {e : Part} (h : n.Sound a)
    (hl : (some e, under) ∈ n.links) (hkind : e.kind = .error) (hstate : n.mark.state ≠ 0) :
    ∃ ts, e.trees = [.error ts] ∧ (n.mark.state = 1 ∨ under.mark.state = n.mark.state) := by
  cases h.fits hl with
  | lost hzero => exact absurd hzero hstate
  | restart hone _ htrees => exact ⟨_, htrees, .inl hone⟩
  | extra hsame _ hextra =>
    cases hextra with
    | fault _ htrees => exact ⟨_, htrees, .inr hsame⟩
    | comment _ _ hsymbol =>
      rw [hkind] at hsymbol
      cases hsymbol
    | ending hsymbol =>
      rw [hkind] at hsymbol
      cases hsymbol
  | symbol _ _ hsymbol =>
    rw [hkind] at hsymbol
    cases hsymbol

/-- What was passed over stands in a state on its own, with comments behind it. -/
private theorem after_passOver {w : Nat} (goal : Nat) {extras : List Part} (h : Good a r)
    (hw : w < r.heads.size) (hextras : ∀ e ∈ extras, e.extra = true ∧ e.IsExtra) {p : Part}
    (hextra : p.extra = true) {ts : List Tree} (hkind : p.kind = .error)
    (htrees : p.trees = [.error ts])
    (hstate : goal = 1 ∨ (r.headAt w).node.mark.state = goal) :
    After (do
      push w (some p) goal
      for e in extras do push w (some e) goal) r fun _ r' => Good a r' := by
  have hfits : Fits r.automaton (r.headAt w).node.mark.state goal (some p) := by
    rcases hstate with hone | hsame
    · exact .restart hone hkind htrees
    · exact .extra hsame hextra (.fault hkind htrees)
  refine (after_push h hfits).bind ?_
  rintro - r₁ ⟨hgood₁, -, hsize₁, hself₁, -⟩
  obtain ⟨id, hnode⟩ := hself₁ hw
  refine (after_pushExtras hgood₁ (hsize₁ ▸ hw) ?_ hextras).mono fun _ _ h' => h'.1
  rw [hnode, Node.mark_push_state]

theorem after_goBack {depth goal : Nat} (h : Good a r) (hgoal : goal ≠ 0) :
    After (goBack v depth goal) r fun _ r' => Good a r' := by
  unfold goBack
  refine after_bind (after_head ?_)
  have hpop := (h.sound.headAt v).pop depth
  have hbase := h.sound.automaton
  have hle := h.le
  have hgood : Good r.automaton r := h.sound.good
  generalize r.automaton = base at hpop hbase hle hgood
  suffices hall : After _ r fun _ r' => Good base r' from hall.mono fun _ _ h' => h'.trans hle
  refine (after_forIn (fun _ r' => Good base r') hgood ?_).bind ?_
  · rintro ⟨below, ways⟩ hmem done r₁ hgood₁
    obtain ⟨hbelow, hways⟩ := hpop _ hmem
    dsimp only at hbelow hways ⊢
    split
    · exact hgood₁
    · rename_i parts _
      have hextras := hways parts List.mem_cons_self
      split
      · exact hgood₁
      · rename_i hstate
        have hstate : below.mark.state = goal := by simpa using hstate
        refine after_bind (after_headCount ?_)
        obtain ⟨hsplit, hextra⟩ := splitExtras_spec parts
        have hbehind : ∀ e ∈ (splitExtras parts).2, e.extra = true ∧ e.IsExtra := by
          intro e he
          exact ⟨hextra e he, hextras e (hsplit ▸ List.mem_append_right _ he) (hextra e he)⟩
        have hbelow₁ : below.Sound r₁.automaton := hbelow.mono hbase hgood₁.le
        -- a stretch that was passed over before is taken up, if there is one
        split
        · rename_i e n hfind
          have hmem := List.mem_of_find?_eq_some hfind
          have hkind : e.kind = .error := by simpa using List.find?_some hfind
          obtain ⟨ts, htrees, hstart⟩ := fits_fault hbelow hmem hkind (hstate ▸ hgoal)
          have hunder₁ : n.Sound r₁.automaton := hbelow₁.of_link hmem
          refine (after_addHead hgood₁ hunder₁).bind ?_
          rintro - r₂ ⟨hgood₂, -, hsize₂, hself₂, -⟩
          have hextended : (e.extend (Part.join .error [] 0 n.mark.cursor
              (splitExtras parts).1)).trees =
              [.error (ts ++ (splitExtras parts).1.flatMap (Part.shownAs []))] := by
            simp [Part.extend, Part.join, htrees]
          have hpass := after_passOver goal
            (p := { e.extend (Part.join .error [] 0 n.mark.cursor (splitExtras parts).1) with
              extra := true }) (w := r₁.heads.size) hgood₂ (by omega) hbehind rfl rfl
            hextended (by
              rw [hself₂]
              rcases hstart with hone | hsame
              · exact .inl (hstate ▸ hone)
              · exact .inr (hsame.trans hstate))
          exact hpass
        · refine (after_addHead hgood₁ hbelow₁).bind ?_
          rintro - r₂ ⟨hgood₂, -, hsize₂, hself₂, -⟩
          have hstate₂ : (r₂.headAt r₁.heads.size).node.mark.state = goal := by
            rw [hself₂]
            exact hstate
          dsimp only
          split
          · have hpass := after_passOver goal
              (p := { Part.join .error [] 0 below.mark.cursor (splitExtras parts).1 with
                extra := true }) (w := r₁.heads.size) hgood₂ (by omega) hbehind rfl rfl
              rfl (.inr hstate₂)
            exact hpass
          · exact (after_pushExtras hgood₂ (by omega) hstate₂ hbehind).bind
              fun _ _ h' => after_pure h'.1
  · rintro - r₁ hgood₁
    exact hgood₁

/-- A stack is marked, its parts stay. -/
theorem after_setStatus {status : Status} (h : Good a r) :
    After (modifyHead v fun h => { h with status := status }) r fun _ r' => Good a r' :=
  (after_modifyHead h (h.sound.headAt v)).mono fun _ _ h' => h'.1

/-- Anything may be put on a stack that has lost its way. -/
theorem after_pushLost {part : Option Part} (h : Good a r)
    (hpart : ∀ p ∈ part, p.extra = false) :
    After (push v part Head.lost) r fun _ r' => Good a r' := by
  refine (after_push h (.lost rfl fun p hp hextra => ?_)).mono fun _ _ h' => h'.1
  rw [hpart p hp] at hextra
  cases hextra

/-- A text that was given up is taken as a whole. -/
theorem after_giveUp {lookahead : Lexeme} {at_ : Cursor} (h : Good a r)
    (hword : lookahead.word = some .endOfFile) :
    After (do
      push v (some (Part.join .error [] 0 at_ [])) 1
      accept v lookahead) r fun _ r' => Good a r' := by
  refine (after_push h (.restart rfl rfl rfl)).bind ?_
  rintro - r₁ ⟨hgood₁, hautomaton₁, hsize₁, hself₁, -⟩
  refine after_accept hgood₁ hword fun id hv => ?_
  obtain ⟨id', hnode⟩ := hself₁ (by omega)
  have heof : (Part.ofLexeme lookahead true).extra = true ∧
      (Part.ofLexeme lookahead true).IsExtra := by
    refine ⟨?_, .ending ?_ ?_⟩ <;> simp [Part.ofLexeme, hword]
  rw [hnode, hautomaton₁]
  intro s hs
  obtain ⟨hsound, hparts⟩ := (h.sound.headAt v).popAll_giveUp rfl rfl rfl heof.1 heof.2 s hs
  refine ⟨hsound, fun parts hmem => ?_⟩
  rcases hparts parts hmem with hextra | hgiven
  · exact .inl hextra
  · exact .inr (.inr hgiven)

/-- A lost reader goes back, gives the text up or passes over a word. -/
theorem after_recover {lookahead : Lexeme} (h : Good a r) :
    After (recover v lookahead) r fun _ r' => Good a r' := by
  have hpop := (h.sound.headAt v).pop 1
  have hbase := h.sound.automaton
  have hle := h.le
  have hgood : Good r.automaton r := h.sound.good
  unfold recover
  refine after_bind (after_head (after_bind (after_headCount ?_)))
  extract_lets here cost since back newCost skipped rest
  generalize r.automaton = base at hpop hbase hle hgood
  suffices hall : After _ r fun _ r' => Good base r' from hall.mono fun _ _ h' => h'.trans hle
  have hrest : ∀ back r₁, Good base r₁ → After (rest () back) r₁ fun _ r' => Good base r' := by
    intro back r₁ hgood₁
    dsimp only [rest]
    split
    · rename_i hword
      rw [bind_pure_unit]
      exact after_giveUp hgood₁ (by simpa using hword)
    · refine after_bind (after_headCount ?_)
      split
      · exact after_setStatus hgood₁
      · refine (after_betterExists hgood₁).bind fun exists_ r₂ hgood₂ => ?_
        split
        · exact after_setStatus hgood₂
        · split
          · split
            · rename_i below parts _ _ hslices
              have hbelow := (hpop (below, parts :: _) (hslices ▸ List.mem_cons_self)).1
              have hbelow₂ : below.Sound r₂.automaton := hbelow.mono hbase hgood₂.le
              refine (after_modifyHead hgood₂ hbelow₂).bind ?_
              rintro - r₃ ⟨hgood₃, -⟩
              exact after_pushLost hgood₃ fun _ hp => Option.some.inj hp ▸ rfl
            · exact after_pushLost hgood₂ fun _ hp => Option.some.inj hp ▸ rfl
          · exact after_pushLost hgood₂ fun _ hp => Option.some.inj hp ▸ rfl
  split
  · refine (after_forIn (fun _ r' => Good base r') hgood ?_).bind fun back r₁ hgood₁ => ?_
    · intro l _ back r₁ hgood₁
      dsimp only
      split
      · exact hgood₁
      · rename_i hskip
        have hstate : l.state ≠ 0 := by
          intro hzero
          exact hskip (by simp [Head.lost, hzero])
        refine after_get ?_
        split
        · exact hgood₁
        · refine (after_betterExists hgood₁).bind fun better r₂ hgood₂ => ?_
          split
          · exact hgood₂
          · refine after_bind (after_actions ?_)
            split
            · refine (after_goBack hgood₂ hstate).bind fun back r₃ hgood₃ => ?_
              split <;> exact hgood₃
            · exact hgood₂
    · exact hrest back r₁ hgood₁
  · exact hrest _ r hgood

/-! ## Ending all phrases -/

/-- What ends in a state ends there later too. -/
theorem Good.mem_complete (h : Good a r) (ha : a.Sound) {n : Nat} {i : Item}
    (hi : i ∈ (a.state n).complete) : i ∈ (r.automaton.state n).complete := by
  rw [h.le.state n (ha.mem_complete hi).2.1]
  exact hi

/-- Phrases are ended on a stack one after the other; the stack itself stays. -/
theorem after_reductions {made : Option Nat} {reductions : List Reduction} (h : r.Sound)
    (hred : ∀ red ∈ reductions,
      ∃ i ∈ (r.automaton.state (r.headAt v).node.mark.state).complete, State.Ends red i) :
    After (forIn reductions made fun red _ => do
      let made ← reduce v red
      pure (ForInStep.yield made)) r fun _ r' => Good r.automaton r' := by
  refine (after_forIn (fun _ r' => Good r.automaton r' ∧ r'.headAt v = r.headAt v)
    ⟨h.good, rfl⟩ ?_).mono fun _ _ h' => h'.1
  rintro red hmem - r₁ ⟨hgood₁, hself₁⟩
  obtain ⟨i, hi, hends⟩ := hred red hmem
  have hi₁ := hgood₁.mem_complete h.automaton hi
  rw [← hself₁] at hi₁
  refine (after_reduce hgood₁.sound hends hi₁).bind ?_
  rintro made r₂ ⟨hgood₂, -, hself₂⟩
  exact ⟨hgood₂.trans hgood₁.le, hself₂.trans hself₁⟩

theorem ends_of_mem_reductions {s : State} {words : List Token} {red : Reduction}
    (h : red ∈ ((words.flatMap s.actions).filterMap fun
      | .reduce r => if r.taken > 0 then some r else none
      | _ => none).eraseDups) : ∃ i ∈ s.complete, State.Ends red i := by
  obtain ⟨action, haction, hreduce⟩ := List.mem_filterMap.mp (List.mem_eraseDups.mp h)
  obtain ⟨t, -, ht⟩ := List.mem_flatMap.mp haction
  split at hreduce
  · split at hreduce
    · obtain rfl := Option.some.inj hreduce
      exact State.reduce_mem_actions ht
    · cases hreduce
  · cases hreduce

/-- Every phrase that can end on a stack is ended. -/
theorem after_reduceAll {start : Nat} {word : Option Token} (h : Good a r) :
    After (reduceAll start word) r fun _ r' => Good a r' := by
  unfold reduceAll
  refine after_bind (after_headCount ?_)
  refine (after_forIn (fun _ r' => Good a r') h ?_).bind fun _ _ h' => h'
  rintro turn - ⟨version, canShift⟩ r₁ hgood₁
  refine after_bind (after_headCount ?_)
  dsimp only
  split
  · exact hgood₁
  · refine (after_forIn (fun _ r' => Good a r') hgood₁ ?_).bind fun merged r₂ hgood₂ => ?_
    · intro j _ merged r₂ hgood₂
      split
      · split
        · refine (after_merge hgood₂).bind ?_
          rintro done r₃ ⟨hgood₃, -⟩
          split <;> exact hgood₃
        · exact hgood₂
      · exact hgood₂
    · split
      · exact hgood₂
      · refine after_bind (after_head (after_get ?_))
        refine (after_reductions hgood₂.sound fun red hmem =>
          ends_of_mem_reductions hmem).bind fun made r₃ hgood₃ => ?_
        have hgood₃ : Good a r₃ := hgood₃.trans hgood₂.le
        have hremove : ∀ turned : Nat × Bool, After (do
            removeHead version
            pure (ForInStep.yield turned)) r₃
            fun (s : ForInStep (Nat × Bool)) r' => Good a r' := fun turned =>
          (after_removeHead hgood₃).bind fun _ _ h' => h'.1
        generalize List.contains _ Action.shift = shifts
        split
        · exact hgood₃
        · split
          · split
            · exact (after_replaceHead hgood₃).bind fun _ _ h' => h'
            · split
              · exact hremove _
              · exact hgood₃
          · split
            · exact hremove _
            · exact hgood₃

/-! ## Putting words in -/

/-- A word that is put in stands for itself. -/
theorem after_pushMissing {w next : Nat} {t : Token} {at_ : Cursor} (h : Good a r)
    (hleads : r.automaton.LeadsTo (r.headAt w).node.mark.state (.token t) next) :
    After (push w (some (Part.ofMissing t at_)) next) r fun _ r' => Good a r' :=
  (after_push h (.symbol hleads rfl rfl .missing)).mono fun _ _ h' => h'.1

/-- Words are put in that a phrase ends with, and the reader loses its way. -/
theorem after_mend {lookahead : Lexeme} (h : Good a r) :
    After (mend v lookahead) r fun _ r' => Good a r' := by
  unfold mend
  refine after_bind (after_headCount ?_)
  refine After.bind (P := fun _ r' => Good a r') (after_discard (after_reduceAll h)) ?_
  rintro - r₁ hgood₁
  refine after_bind (after_headCount ?_)
  dsimp only
  refine (after_forIn (fun _ r' => Good a r') hgood₁ ?_).bind ?_
  · intro w _ inserted r₂ hgood₂
    have hlose : ∀ inserted r₃, Good a r₃ → After (do
        push w none Head.lost
        pure (ForInStep.yield inserted)) r₃ fun (_ : ForInStep Bool) r' => Good a r' :=
      fun inserted r₃ hgood₃ => (after_pushLost hgood₃ (by simp)).bind
        fun _ _ h' => after_pure h'
    split
    · refine after_bind (after_head ?_)
      generalize hhead : r₂.headAt w = head
      have hnode : head.node.Sound r₂.automaton := hhead ▸ hgood₂.sound.headAt w
      have hsound := hgood₂.sound.automaton
      have hle := hgood₂.le
      have hgood := hgood₂.sound.good
      generalize r₂.automaton = base at hnode hsound hle hgood
      refine (after_forIn (fun _ r' => Good base r') hgood ?_).bind
        fun inserted r₃ hgood₃ => hlose inserted r₃ (hgood₃.trans hle)
      intro n _ inserted r₃ hgood₃
      split
      · refine (after_goto hgood₃).bind ?_
        rintro next r₄ ⟨hgood₄, -, -, hleads⟩
        cases next with
        | none => exact hgood₄
        | some next =>
          have hcopy : After (do
              let copy ← headCount
              addHead { head with landmarks := [] }
              push copy (some (Part.ofMissing (Token.ofNat n) head.node.mark.cursor)) next
              if ← reduceAll copy (lookahead.word.filter (· != .endOfFile)) then
                pure (ForInStep.yield true)
              else pure (ForInStep.yield inserted)) r₄ fun _ r' => Good base r' := by
            refine after_bind (after_headCount ?_)
            have hnode₄ : head.node.Sound r₄.automaton := hnode.mono hsound hgood₄.le
            have hadd : After (addHead { head with landmarks := [] }) r₄ _ :=
              after_addHead hgood₄ hnode₄
            refine hadd.bind ?_
            rintro - r₅ ⟨hgood₅, hautomaton₅, -, hself₅, -⟩
            have hleads₅ : r₅.automaton.LeadsTo (r₅.headAt r₄.heads.size).node.mark.state
                (.token (Token.ofNat n)) next := by
              rw [hself₅, hautomaton₅]
              exact hleads next rfl
            refine (after_pushMissing hgood₅ hleads₅).bind fun _ r₆ hgood₆ => ?_
            refine (after_reduceAll hgood₆).bind fun ended r₇ hgood₇ => ?_
            split <;> exact hgood₇
          dsimp only
          split
          · refine after_bind (after_actions ?_)
            split
            · exact hcopy
            · exact hgood₄
          · exact hgood₄
      · exact hgood₃
    · exact hlose inserted r₂ hgood₂
  · rintro - r₂ hgood₂
    refine (after_forIn (fun _ r' => Good a r') hgood₂ ?_).bind ?_
    · rintro - - - r₃ hgood₃
      exact After.bind (P := fun _ r' => Good a r')
        (after_discard ((after_merge hgood₃).mono fun _ _ h' => h'.1)) fun _ _ h' => h'
    · rintro - r₃ hgood₃
      refine (after_modifyHead hgood₃ (hgood₃.sound.headAt v)).bind ?_
      rintro - r₄ ⟨hgood₄, -⟩
      exact after_recover hgood₄

end Reader

end SourceShelf.Java
