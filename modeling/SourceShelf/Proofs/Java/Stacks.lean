import SourceShelf.Java.Stack
import SourceShelf.Proofs.Java.Endings

/-!
# What a stack holds

`Node.Sound` is the invariant of a stack: each link fits the states at its two
ends (`Fits`).  Where it holds a symbol, the upper state lies behind the lower one,
and the trees of the link are a way to write the symbol.

* `Node.Sound.push`, `Node.Sound.merge`: the two ways to make a stack from others.
* `Node.follow_induction`: what holds of a walk down a stack at every step.
* `Node.Sound.pop_item`: the parts above the place where an item started are what
  an alternative takes.
* `Node.Sound.popAll_accept`: what lies on a stack when a text is accepted.
-/

namespace SourceShelf.Java

/-! ## Parts -/

namespace Part

/-- The piece that a part is of the phrase around it. -/
def piece (p : Part) : Piece where
  symbol? :=
    match p.extra, p.kind with
    | false, .symbol x => some x
    | _, _ => none
  trees := p.trees

/-- The symbols that some parts stand for. -/
def symbols (parts : List Part) : List Symbol := parts.filterMap fun p => p.piece.symbol?

/-- What stands between symbols: a stretch that was passed over, a comment or the end
of the text. -/
inductive IsExtra (p : Part) : Prop where
  | fault {ts : List Tree} (hkind : p.kind = .error) (htrees : p.trees = [.error ts])
  | comment {t : Token} {a b : Nat} (ht : t.isComment = true) (h : a < b)
      (hkind : p.kind = .symbol (.token t)) (htrees : p.trees = [.leaf t a b])
  | ending (hkind : p.kind = .symbol (.token .endOfFile)) (htrees : p.trees = [])

/-- The part is a way to write a symbol, or stands between two. -/
inductive Fine (p : Part) : Prop where
  | extra (hextra : p.extra = true) (h : p.IsExtra)
  | symbol {x : Symbol} (hextra : p.extra = false) (hkind : p.kind = .symbol x)
      (hproper : x.isProper = true) (hreads : Reads x p.trees)

namespace IsExtra

variable {p : Part}

theorem between (h : p.IsExtra) : Between p.trees := by
  cases h with
  | fault hkind htrees => exact htrees ▸ .fault _
  | comment ht h hkind htrees => exact htrees ▸ .comment ht h
  | ending hkind htrees => exact htrees ▸ .nothing

/-- What stands between symbols is none. -/
theorem not_proper (h : p.IsExtra) {x : Symbol} (hkind : p.kind = .symbol x) :
    x.isProper = false := by
  cases h with
  | fault hk htrees =>
    rw [hk] at hkind
    cases hkind
  | comment ht h hk htrees =>
    rw [hk] at hkind
    cases hkind
    simp [Symbol.isProper, ht]
  | ending hk htrees =>
    rw [hk] at hkind
    cases hkind
    rfl

end IsExtra

theorem symbols_cons_extra {p : Part} {parts : List Part} (h : p.extra = true) :
    symbols (p :: parts) = symbols parts := by
  simp [symbols, piece, h]

theorem symbols_cons_symbol {p : Part} {parts : List Part} {x : Symbol} (h : p.extra = false)
    (hkind : p.kind = .symbol x) : symbols (p :: parts) = x :: symbols parts := by
  simp [symbols, piece, h, hkind]

theorem symbols_append (ps qs : List Part) : symbols (ps ++ qs) = symbols ps ++ symbols qs :=
  List.filterMap_append

theorem symbols_of_extra {ps : List Part} (h : ∀ p ∈ ps, p.extra = true) : symbols ps = [] := by
  induction ps with
  | nil => rfl
  | cons p ps ih =>
    rw [symbols_cons_extra (h p List.mem_cons_self)]
    exact ih fun q hq => h q (List.mem_cons_of_mem p hq)

/-- What is no symbol of a rule is shown as it is. -/
private theorem lookup_shown {head : Phrase} {alt : Alternative} (halt : alt ∈ head.rule)
    {x : Symbol} (hx : x.isProper = false) : alt.shown.lookup x = none := by
  rw [List.lookup_eq_none_iff]
  intro m hm
  obtain ⟨s, hs, hshown⟩ := List.mem_filterMap.mp hm
  obtain ⟨w, -, rfl⟩ := Option.map_eq_some_iff.mp hshown
  have hproper := Phrase.isProper_of_mem_rule halt hs
  rw [bne_iff_ne]
  rintro rfl
  rw [hx] at hproper
  cases hproper

/-- An alternative shows a part as it shows its piece. -/
theorem shownAs_eq {p : Part} (h : p.Fine) {head : Phrase} {alt : Alternative}
    (halt : alt ∈ head.rule) : shownAs alt.shown p = p.piece.shown alt.shown := by
  cases h with
  | extra hextra h =>
    have hpiece : p.piece.shown alt.shown = p.trees := by
      simp [Piece.shown, piece, hextra]
    rw [hpiece]
    unfold shownAs
    split
    · rename_i x hkind
      rw [lookup_shown halt (h.not_proper hkind)]
    · rfl
  | @symbol x hextra hkind hproper hreads =>
    have hsymbol : p.piece.symbol? = some x := by simp [piece, hextra, hkind]
    unfold shownAs Piece.shown
    rw [hkind, hsymbol, Option.bind_some]
    dsimp only
    cases alt.shown.lookup x with
    | some w =>
      refine List.map_congr_left fun t _ => ?_
      cases t <;> rfl
    | none => rfl

/-- The end of a phrase: the parts that an alternative takes make a way to write the
phrase. -/
theorem reads_join {head : Phrase} {alt : Alternative} (halt : alt ∈ head.rule)
    {parts : List Part} (htakes : takes alt.steps (symbols parts)) (hfine : ∀ p ∈ parts, p.Fine)
    (preference : Int) (at_ : Cursor) :
    Reads (.phrase head)
      (join (.symbol (.phrase head)) alt.shown preference at_ parts).trees := by
  have htrees : (join (.symbol (.phrase head)) alt.shown preference at_ parts).trees =
      head.wrap ((parts.map piece).flatMap (·.shown alt.shown)) := by
    have hflat : parts.flatMap (shownAs alt.shown) =
        (parts.map piece).flatMap (·.shown alt.shown) := by
      rw [List.flatMap_map]
      exact List.flatMap_congr fun p hp => shownAs_eq (hfine p hp) halt
    unfold join Phrase.wrap
    dsimp only
    rw [← hflat]
    split <;> rfl
  rw [htrees]
  refine .phrase halt ?_ ?_ ?_
  · rw [List.filterMap_map]
    exact htakes
  · intro c hc x hx
    obtain ⟨p, hp, rfl⟩ := List.mem_map.mp hc
    cases hfine p hp with
    | extra hextra h => simp [piece, hextra] at hx
    | symbol hextra hkind hproper hreads =>
      obtain rfl : _ = x := by simpa [piece, hextra, hkind] using hx
      exact hreads
  · intro c hc hnone
    obtain ⟨p, hp, rfl⟩ := List.mem_map.mp hc
    cases hfine p hp with
    | extra hextra h => exact h.between
    | symbol hextra hkind hproper hreads => simp [piece, hextra, hkind] at hnone

end Part

/-! ## Links -/

variable {a b : Automaton}

/-- What may lie between two states of a stack.  Below a reader that has lost its way
lies anything; it may go back to the start of a text. -/
inductive Fits (a : Automaton) (below state : Nat) : Option Part → Prop where
  | lost {part : Option Part} (hstate : state = 0)
      (h : ∀ p ∈ part, p.extra = true → p.IsExtra) : Fits a below state part
  | restart {p : Part} {ts : List Tree} (hstate : state = 1) (hkind : p.kind = .error)
      (htrees : p.trees = [.error ts]) : Fits a below state (some p)
  | extra {p : Part} (hstate : below = state) (hextra : p.extra = true) (h : p.IsExtra) :
      Fits a below state (some p)
  | symbol {p : Part} {x : Symbol} (hstate : a.LeadsTo below x state) (hextra : p.extra = false)
      (hkind : p.kind = .symbol x) (hreads : Reads x p.trees) : Fits a below state (some p)

/-- Only the symbols of rules lead anywhere. -/
theorem Automaton.LeadsTo.isProper (ha : a.Sound) {n m : Nat} {x : Symbol}
    (h : a.LeadsTo n x m) : x.isProper = true := by
  obtain ⟨i, hi⟩ := List.exists_mem_of_ne_nil _ h.ne_nil
  obtain ⟨j, -, -, hmove⟩ := ha.mem_behind hi
  exact Forms.isProper_of_mem_moves hmove

namespace Fits

theorem mono (ha : a.Sound) {below state : Nat} {part : Option Part}
    (h : Fits a below state part) (hab : a ≤ b) : Fits b below state part := by
  cases h with
  | lost hstate h => exact .lost hstate h
  | restart hstate hkind htrees => exact .restart hstate hkind htrees
  | extra hstate hextra h => exact .extra hstate hextra h
  | symbol hstate hextra hkind hreads => exact .symbol (hstate.mono ha hab) hextra hkind hreads

/-- What stands between symbols on a stack may do so elsewhere. -/
theorem isExtra {below state : Nat} {p : Part} (h : Fits a below state (some p))
    (hextra : p.extra = true) : p.IsExtra := by
  cases h with
  | lost hstate h => exact h p rfl hextra
  | restart hstate hkind htrees => exact .fault hkind htrees
  | extra hstate hextra h => exact h
  | symbol hstate hnone hkind hreads =>
    rw [hnone] at hextra
    cases hextra

/-- Of two parts that are alike, each may lie where the other does. -/
theorem swap (ha : a.Sound) {below below' state : Nat} {part old : Option Part}
    (h : Fits a below state part) (hold : Fits a below' state old)
    (hsame : Node.sameLink old part = true) : Fits a below' state part := by
  have hkinds : ∀ p ∈ old, ∀ q ∈ part, p.kind = q.kind := by
    rintro p rfl q rfl
    have hkind : (p.kind == q.kind) = true := (Bool.and_eq_true_iff.mp hsame).1
    exact eq_of_beq hkind
  have hsome : ∀ q ∈ part, ∃ p, old = some p := by
    rintro q rfl
    cases old with
    | none => cases hsame
    | some p => exact ⟨p, rfl⟩
  cases h with
  | lost hstate h => exact .lost hstate h
  | restart hstate hkind htrees => exact .restart hstate hkind htrees
  | @extra q hstate hextra h =>
    obtain ⟨p, rfl⟩ := hsome q rfl
    have hkind := hkinds p rfl q rfl
    cases hold with
    | lost hstate' h' => exact .lost hstate' fun _ hq _ => Option.some.inj hq ▸ h
    | restart hstate' hkind' htrees' =>
      cases h with
      | fault hk htrees => exact .restart hstate' hk htrees
      | comment ht h hk htrees =>
        rw [hkind', hk] at hkind
        cases hkind
      | ending hk htrees =>
        rw [hkind', hk] at hkind
        cases hkind
    | extra hstate' hextra' h' => exact .extra hstate' hextra h
    | symbol hleads hextra' hkind' hreads' =>
      have := h.not_proper (hkind.symm.trans hkind')
      rw [hleads.isProper ha] at this
      cases this
  | @symbol q x hleads hextra hkind hreads =>
    obtain ⟨p, rfl⟩ := hsome q rfl
    have hkinds := (hkinds p rfl q rfl).trans hkind
    have htwo := hleads.two_le
    cases hold with
    | lost hstate' h' => omega
    | restart hstate' hkind' htrees' => omega
    | extra hstate' hextra' h' =>
      have := h'.not_proper hkinds
      rw [hleads.isProper ha] at this
      cases this
    | symbol hleads' hextra' hkind' hreads' =>
      have hx := PartKind.symbol.inj (hkinds.symm.trans hkind')
      exact .symbol (hx ▸ hleads') hextra hkind hreads

end Fits

/-! ## Stacks -/

namespace Node

variable {n : Node}

/-- Every link of a stack fits the states at its ends. -/
inductive Sound (a : Automaton) : Node → Prop where
  | mk {m : Mark} {links : List (Option Part × Node)} (hbelow : ∀ l ∈ links, Sound a l.2)
      (hfits : ∀ l ∈ links, Fits a l.2.mark.state m.state l.1) : Sound a (mk m links)

namespace Sound

theorem of_link (h : n.Sound a) {l : Option Part × Node} (hl : l ∈ n.links) : l.2.Sound a := by
  cases h with
  | mk hbelow hfits => exact hbelow l hl

theorem fits (h : n.Sound a) {l : Option Part × Node} (hl : l ∈ n.links) :
    Fits a l.2.mark.state n.mark.state l.1 := by
  cases h with
  | mk hbelow hfits => exact hfits l hl

theorem mono (ha : a.Sound) (h : n.Sound a) (hab : a ≤ b) : n.Sound b := by
  induction h with
  | mk hbelow hfits ih => exact .mk ih fun l hl => (hfits l hl).mono ha hab

theorem base (c : Cursor) : (base c).Sound a :=
  .mk (fun _ hl => nomatch hl) fun _ hl => nomatch hl

theorem default : (default : Node).Sound a :=
  .mk (fun _ hl => nomatch hl) fun _ hl => nomatch hl

/-- A part is put on a stack. -/
theorem push (h : n.Sound a) {id state : Nat} {part : Option Part}
    (hfits : Fits a n.mark.state state part) : (push id state part n).Sound a := by
  cases part with
  | none =>
    refine .mk ?_ ?_
    · rintro l (_ | ⟨_, hl⟩)
      · exact h
      · cases hl
    · rintro l (_ | ⟨_, hl⟩)
      · exact hfits
      · cases hl
  | some p =>
    refine .mk ?_ ?_
    · rintro l (_ | ⟨_, hl⟩)
      · exact h
      · cases hl
    · rintro l (_ | ⟨_, hl⟩)
      · exact hfits
      · cases hl

end Sound

@[simp] theorem mark_push_state (id state : Nat) (part : Option Part) (n : Node) :
    (push id state part n).mark.state = state := by
  cases part <;> rfl

@[simp] theorem links_push (id state : Nat) (part : Option Part) (n : Node) :
    (push id state part n).links = [(part, n)] := by
  cases part <;> rfl

/-! ## Joining stacks -/

/-- A link that a stack in a state may have. -/
def LinkSound (a : Automaton) (state : Nat) (l : Option Part × Node) : Prop :=
  l.2.Sound a ∧ Fits a l.2.mark.state state l.1

/-- With this much fuel, adding a way down keeps what a stack holds and the state at
its top. -/
def KeepsSound (a : Automaton) (fuel : Nat) : Prop :=
  ∀ (n : Node) (l : Option Part × Node), n.Sound a → LinkSound a n.mark.state l →
    (addLink fuel n l).Sound a ∧ (addLink fuel n l).mark.state = n.mark.state

/-- Joining two stacks in one state, the ways down of one are added to the other. -/
theorem KeepsSound.join {fuel : Nat} (hadd : KeepsSound a fuel) {links : List (Option Part × Node)}
    (h : n.Sound a) (hlinks : ∀ l ∈ links, LinkSound a n.mark.state l) :
    (links.foldl (Node.addLink fuel) n).Sound a ∧
      (links.foldl (Node.addLink fuel) n).mark.state = n.mark.state := by
  induction links generalizing n with
  | nil => exact ⟨h, rfl⟩
  | cons l links ih =>
    obtain ⟨hsound, hstate⟩ := hadd _ _ h (hlinks l List.mem_cons_self)
    obtain ⟨hsound', hstate'⟩ := ih hsound fun l' hl' =>
      hstate ▸ hlinks l' (List.mem_cons_of_mem l hl')
    exact ⟨hsound', hstate'.trans hstate⟩

/-- The ways down a stack, with one that is put where there is a like one. -/
theorem KeepsSound.place {fuel : Nat} (hadd : KeepsSound a fuel) (ha : a.Sound) {m : Mark}
    {part : Option Part} {below : Node} (hnew : LinkSound a m.state (part, below))
    {links : List (Option Part × Node)} (hlinks : ∀ l ∈ links, LinkSound a m.state l)
    {weigh : Int} {placed : List (Option Part × Node) × Int}
    (h : addLink.place fuel m part below weigh links = some placed) :
    ∀ l ∈ placed.1, LinkSound a m.state l := by
  obtain ⟨hbelow, hfits⟩ := hnew
  induction links generalizing placed with
  | nil =>
    rw [addLink.place.eq_1] at h
    cases h
  | cons l links ih =>
    obtain ⟨p, b⟩ := l
    obtain ⟨⟨hb, hp⟩, hrest⟩ := List.forall_mem_cons.mp hlinks
    have hnext : ∀ placed, (addLink.place fuel m part below weigh links).map
        (fun x => ((p, b) :: x.1, x.2)) = some placed → ∀ l ∈ placed.1, LinkSound a m.state l := by
      intro placed hplaced
      obtain ⟨later, hlater, rfl⟩ := Option.map_eq_some_iff.mp hplaced
      exact List.forall_mem_cons.mpr ⟨⟨hb, hp⟩, ih hrest hlater⟩
    rw [addLink.place.eq_2] at h
    split at h
    · rename_i hsame
      split at h
      · split at h
        · obtain rfl := Option.some.inj h
          exact List.forall_mem_cons.mpr ⟨⟨hb, hfits.swap ha hp hsame⟩, hrest⟩
        · obtain rfl := Option.some.inj h
          exact List.forall_mem_cons.mpr ⟨⟨hb, hp⟩, hrest⟩
      · split at h
        · rename_i hmergeable
          have hstate : b.mark.state = below.mark.state := by
            have hboth := (Bool.and_eq_true_iff.mp hmergeable).1
            exact eq_of_beq (Bool.and_eq_true_iff.mp hboth).1
          have hlinks : ∀ l ∈ below.links, LinkSound a b.mark.state l := fun l hl =>
            hstate ▸ ⟨hbelow.of_link hl, hbelow.fits hl⟩
          obtain ⟨hsound, hstate'⟩ := hadd.join hb hlinks
          obtain rfl := Option.some.inj h
          exact List.forall_mem_cons.mpr ⟨⟨hsound, hstate' ▸ hp⟩, hrest⟩
        · exact hnext _ h
    · exact hnext _ h

/-- Adding a way down keeps what a stack holds and the state at its top. -/
theorem Sound.addLink (ha : a.Sound) (fuel : Nat) : KeepsSound a fuel := by
  induction fuel with
  | zero =>
    intro n l h _
    rw [Node.addLink.eq_1]
    exact ⟨h, rfl⟩
  | succ fuel ih =>
    rintro ⟨m, links⟩ ⟨part, below⟩ h hnew
    have hlinks : ∀ l ∈ links, LinkSound a m.state l := fun l hl => ⟨h.of_link hl, h.fits hl⟩
    rw [addLink.eq_2]
    split
    · rename_i hplaced
      have hall := ih.place ha hnew hlinks hplaced
      exact ⟨.mk (fun l hl => (hall l hl).1) fun l hl => (hall l hl).2, rfl⟩
    · split
      · exact ⟨h, rfl⟩
      · have hall : ∀ l ∈ links ++ [(part, below)], LinkSound a m.state l := by
          intro l hl
          rcases List.mem_append.mp hl with hl | hl
          · exact hlinks l hl
          · obtain rfl := List.mem_singleton.mp hl
            exact hnew
        exact ⟨.mk (fun l hl => (hall l hl).1) fun l hl => (hall l hl).2, rfl⟩

/-- Two stacks in one state are joined. -/
theorem Sound.merge (ha : a.Sound) {n n' : Node} (h : n.Sound a) (h' : n'.Sound a)
    (hstate : n.mark.state = n'.mark.state) : (n.merge n').Sound a := by
  have hlinks : ∀ l ∈ n'.links, LinkSound a n.mark.state l := by
    intro l hl
    rw [hstate]
    exact ⟨h'.of_link hl, h'.fits hl⟩
  exact ((Sound.addLink ha mergeDepth).join h hlinks).1

/-! ## Walks down a stack -/

/-- What every step down keeps holds of all walks, and of what they find. -/
theorem follow_induction {α : Type} {stop : Walk → Bool} {visit found : α → Walk → α}
    {P : Walk → Prop} {Q : α → Prop}
    (hdown : ∀ w, P w → stop w = false → ∀ l ∈ w.node.links, P (w.down l))
    (hvisit : ∀ acc w, Q acc → P w → Q (visit acc w))
    (hfound : ∀ acc w, Q acc → P w → stop w = true → Q (found acc w))
    (fuel : Nat) {walks : List Walk} {acc : α} (hwalks : ∀ w ∈ walks, P w) (hacc : Q acc) :
    Q (follow stop visit found fuel walks acc) := by
  induction fuel generalizing walks acc with
  | zero =>
    rw [follow]
    exact hacc
  | succ fuel ih =>
    cases walks with
    | nil =>
      rw [follow.eq_2 stop visit found _ acc (Nat.succ_ne_zero fuel)]
      exact hacc
    | cons w₀ ws =>
      rw [follow.eq_3 stop visit found _ acc fuel (List.cons_ne_nil w₀ ws)]
      generalize hst : List.foldl _ _ (w₀ :: ws) = st
      have hround : Q st.1 ∧ (∀ w ∈ st.2.1, P w) ∧ ∀ w ∈ st.2.2.1, P w := by
        rw [← hst]
        refine List.foldlRecOn (w₀ :: ws) _
          (motive := fun st : α × List Walk × List Walk × Nat =>
            Q st.1 ∧ (∀ w ∈ st.2.1, P w) ∧ ∀ w ∈ st.2.2.1, P w)
          ⟨hacc, (fun _ h => nomatch h), fun _ h => nomatch h⟩ ?_
        rintro ⟨acc, kept, added, count⟩ ⟨hacc, hkept, hadded⟩ w hw
        have hw := hwalks w hw
        have hacc' := hvisit acc w hacc hw
        dsimp only
        split
        · rename_i hstop
          exact ⟨hfound _ w hacc' hw hstop, hkept, hadded⟩
        · rename_i hstop
          have hlinks := hdown w hw (Bool.not_eq_true _ ▸ hstop)
          split
          · exact ⟨hacc', hkept, hadded⟩
          · rename_i l more hl
            rw [hl] at hlinks
            refine ⟨hacc', List.forall_mem_cons.mpr ⟨hlinks l List.mem_cons_self, hkept⟩, ?_⟩
            intro w' hw'
            rcases List.mem_append.mp hw' with hw' | hw'
            · exact hadded w' hw'
            · obtain ⟨l', hl', rfl⟩ := List.mem_map.mp hw'
              exact hlinks l' (List.mem_cons_of_mem l (List.mem_of_mem_take hl'))
      refine ih ?_ hround.1
      intro w hw
      rcases List.mem_append.mp hw with hw | hw
      · exact hround.2.1 w (List.mem_reverse.mp hw)
      · exact hround.2.2 w hw

/-- What the slices of a stack hold: sound stacks, and parts with a property. -/
def SlicesHold (a : Automaton) (R : List Part → Prop) (slices : Slices) : Prop :=
  ∀ s ∈ slices, s.1.Sound a ∧ ∀ parts ∈ s.2, R parts

theorem SlicesHold.addSlice {R : List Part → Prop} {slices : Slices} (h : SlicesHold a R slices)
    {w : Walk} (hnode : w.node.Sound a) (hparts : R w.parts) :
    SlicesHold a R (addSlice slices w) := by
  unfold Node.addSlice
  split
  · intro s hs
    obtain ⟨s', hs', rfl⟩ := List.mem_map.mp hs
    obtain ⟨hsound, hall⟩ := h s' hs'
    split
    · refine ⟨hsound, fun parts hp => ?_⟩
      rcases List.mem_append.mp hp with hp | hp
      · exact hall parts hp
      · exact List.mem_singleton.mp hp ▸ hparts
    · exact ⟨hsound, hall⟩
  · intro s hs
    rcases List.mem_append.mp hs with hs | hs
    · exact h s hs
    · obtain rfl := List.mem_singleton.mp hs
      exact ⟨hnode, fun parts hp => List.mem_singleton.mp hp ▸ hparts⟩

/-- A walk that has come to a sound stack. -/
theorem Sound.down {w : Walk} (h : w.node.Sound a) {l : Option Part × Node}
    (hl : l ∈ w.node.links) : (w.down l).node.Sound a := by
  obtain ⟨part, n⟩ := l
  cases part <;> exact h.of_link hl

/-- Parts that are taken off a stack: those between symbols are what may stand there. -/
theorem Sound.pop (h : n.Sound a) (count : Nat) :
    SlicesHold a (fun parts => ∀ p ∈ parts, p.extra = true → p.IsExtra) (n.pop count) := by
  refine follow_induction
    (P := fun w => w.node.Sound a ∧ ∀ p ∈ w.parts, p.extra = true → p.IsExtra)
    (Q := SlicesHold a _) ?_ (fun _ _ hacc _ => hacc) ?_ _ ?_ (fun _ hs => nomatch hs)
  · rintro w ⟨hsound, hparts⟩ - ⟨part, m⟩ hl
    refine ⟨hsound.down hl, ?_⟩
    cases part with
    | none => exact hparts
    | some p => exact List.forall_mem_cons.mpr ⟨(hsound.fits hl).isExtra, hparts⟩
  · rintro acc w hacc ⟨hsound, hparts⟩ -
    exact hacc.addSlice hsound hparts
  · rintro w hw
    obtain rfl := List.mem_singleton.mp hw
    exact ⟨h, fun _ hp => nomatch hp⟩

/-- One step down from an item that has read something: what lies there was read
between symbols, or it is the symbol that was read last. -/
theorem Sound.link_of_item (ha : a.Sound) (h : n.Sound a) {part : Option Part} {m : Node}
    (hl : (part, m) ∈ n.links) {j : Item} (hj : j ∈ a.items n.mark.state)
    (htaken : 0 < j.taken) :
    ∃ p, part = some p ∧ p.Fine ∧
      (p.extra = true ∧ j ∈ a.items m.mark.state ∨
        p.extra = false ∧ ∃ x, p.kind = .symbol x ∧ a.LeadsTo m.mark.state x n.mark.state ∧
          ∃ k ∈ a.items m.mark.state, j.taken = k.taken + 1 ∧
            (x, j.form) ∈ (forms.entry k.form).moves) := by
  have htwo := ha.two_le_of_taken hj htaken
  cases h.fits hl with
  | lost hstate => omega
  | restart hstate => omega
  | @extra p hstate hextra hp =>
    refine ⟨p, rfl, .extra hextra hp, .inl ⟨hextra, ?_⟩⟩
    rw [show m.mark.state = n.mark.state from hstate]
    exact hj
  | @symbol p x hleads hextra hkind hreads =>
    exact ⟨p, rfl, .symbol hextra hkind (hleads.isProper ha) hreads,
      .inr ⟨hextra, x, hkind, hleads, ha.step_back hleads hj htaken⟩⟩

/-- What is taken off a stack for an item at its end is what an alternative takes. -/
theorem Sound.pop_item (ha : a.Sound) (h : n.Sound a) {i : Item} (hi : i ∈ a.items n.mark.state)
    (hcomplete : (forms.entry i.form).complete = true) :
    SlicesHold a (fun parts => (∀ p ∈ parts, p.Fine) ∧ ∃ alt ∈ (headOf i.form).rule,
      takes alt.steps (Part.symbols parts) ∧ (forms.entry i.form).form.shown = alt.shown)
      (n.pop i.taken) := by
  -- the walk follows the item down to the place where it has read nothing
  refine follow_induction
    (P := fun w => w.node.Sound a ∧ (∀ p ∈ w.parts, p.Fine) ∧ ∃ j ∈ a.items w.node.mark.state,
      i.taken = j.taken + w.count ∧ Forms.Path j.form (Part.symbols w.parts) i.form)
    (Q := SlicesHold a _) ?_ (fun _ _ hacc _ => hacc) ?_ _ ?_ (fun _ hs => nomatch hs)
  · rintro w ⟨hsound, hfine, j, hj, hcount, hpath⟩ hstop ⟨part, m⟩ hl
    have hne : w.count ≠ i.taken := by simpa using hstop
    have htaken : 0 < j.taken := by omega
    obtain ⟨p, rfl, hp, hcases⟩ := hsound.link_of_item ha hl hj htaken
    refine ⟨hsound.down hl, List.forall_mem_cons.mpr ⟨hp, hfine⟩, ?_⟩
    rcases hcases with ⟨hextra, hjm⟩ | ⟨hextra, x, hkind, -, k, hk, hkj, hmove⟩
    · refine ⟨j, hjm, ?_, ?_⟩
      · rw [hcount]
        show _ = j.taken + if p.extra then w.count else w.count + 1
        rw [if_pos hextra]
      · show Forms.Path j.form (Part.symbols (p :: w.parts)) i.form
        rw [Part.symbols_cons_extra hextra]
        exact hpath
    · refine ⟨k, hk, ?_, ?_⟩
      · rw [hcount, hkj]
        show _ = k.taken + if p.extra then w.count else w.count + 1
        rw [if_neg (by simp [hextra])]
        omega
      · show Forms.Path k.form (Part.symbols (p :: w.parts)) i.form
        rw [Part.symbols_cons_symbol hextra hkind]
        exact .cons hmove hpath
  · rintro acc w hacc ⟨hsound, hfine, j, hj, hcount, hpath⟩ hstop
    have hcountEq : w.count = i.taken := by simpa using hstop
    refine hacc.addSlice hsound ⟨hfine, ha.takes_of_path hj (by omega) hpath hcomplete⟩
  · rintro w hw
    obtain rfl := List.mem_singleton.mp hw
    exact ⟨h, (fun _ hp => nomatch hp), i, hi, rfl, .nil i.form⟩

/-! ## Accepting a text -/

/-- The parts of a text: some below, a program, and only what may stand between symbols
behind it. -/
def IsText (R : List Part → Prop) (parts : List Part) : Prop :=
  ∃ around top behind, parts = around ++ top :: behind ∧ R around ∧ top.extra = false ∧
    top.kind = .symbol (.phrase .program) ∧ Reads (.phrase .program) top.trees ∧
    ∀ p ∈ behind, p.extra = true ∧ p.IsExtra

/-- Only what may stand between symbols. -/
def AllExtra (parts : List Part) : Prop := ∀ p ∈ parts, p.IsExtra

/-- A fault among other parts. -/
def SomeFaulty (parts : List Part) : Prop := ∃ p ∈ parts, Tree.anyFaulty p.trees = true

theorem IsText.cons {R R' : List Part → Prop} {parts : List Part} (h : IsText R parts) {p : Part}
    (hR : ∀ around, R around → R' (p :: around)) : IsText R' (p :: parts) := by
  obtain ⟨around, top, behind, rfl, haround, htop⟩ := h
  exact ⟨p :: around, top, behind, rfl, hR around haround, htop⟩

theorem IsText.mono {R R' : List Part → Prop} {parts : List Part} (h : IsText R parts)
    (hR : ∀ around, R around → R' around) : IsText R' parts := by
  obtain ⟨around, top, behind, rfl, haround, htop⟩ := h
  exact ⟨around, top, behind, rfl, hR around haround, htop⟩

/-- How far down a walk is from a stack with the end of the text on top: it comes to the
end of the file, then behind the program to the start of the text, and further only
below a fault. -/
inductive Accepts (a : Automaton) (top : Node) (w : Walk) : Prop
  | top (h : w = ⟨top, [], 0⟩)
  | file (hextras : ∀ p ∈ w.parts, p.extra = true ∧ p.IsExtra) {i : Item}
      (hi : i ∈ a.items w.node.mark.state) (hcomplete : (forms.entry i.form).complete = true)
      (hfile : headOf i.form = .file)
  | program (htext : IsText AllExtra w.parts) (hstate : w.node.mark.state = 1)
  | fault (htext : IsText SomeFaulty w.parts)

/-- Behind the end of the file lies an extra or the program. -/
theorem Accepts.file_down (ha : a.Sound) {top : Node} {w : Walk} (hsound : w.node.Sound a)
    (hextras : ∀ p ∈ w.parts, p.extra = true ∧ p.IsExtra) {i : Item}
    (hi : i ∈ a.items w.node.mark.state) (hcomplete : (forms.entry i.form).complete = true)
    (hfile : headOf i.form = .file) {l : Option Part × Node} (hl : l ∈ w.node.links) :
    Accepts a top (w.down l) := by
  obtain ⟨part, m⟩ := l
  have htaken := ha.taken_pos_of_file hi hcomplete hfile
  obtain ⟨p, rfl, hp, hlink⟩ := hsound.link_of_item ha hl hi htaken
  rcases hlink with ⟨hextra, him⟩ | ⟨hextra, x, hkind, -, k, hk, -, hmove⟩
  · have hpExtra : p.IsExtra := (hsound.fits hl).isExtra hextra
    exact .file (List.forall_mem_cons.mpr ⟨⟨hextra, hpExtra⟩, hextras⟩) him hcomplete hfile
  · have hkfile := (Forms.headOf_move hmove).symm.trans hfile
    obtain ⟨rfl, -, hstart⟩ := ha.step_back_file hk hmove hkfile
    have hreads : Reads (.phrase .program) p.trees := by
      cases hp with
      | extra hyes =>
        rw [hextra] at hyes
        cases hyes
      | symbol _ hkind' _ hreads =>
        rw [hkind] at hkind'
        exact PartKind.symbol.inj hkind' ▸ hreads
    exact .program ⟨[], p, w.parts, rfl, (fun _ hq => nomatch hq), hextra, hkind, hreads, hextras⟩
      hstart

/-- Below the start of the text lies an extra, or a fault that starts it anew. -/
theorem Accepts.program_down {top : Node} {w : Walk} (hsound : w.node.Sound a)
    (htext : IsText AllExtra w.parts) (hstate : w.node.mark.state = 1)
    {l : Option Part × Node} (hl : l ∈ w.node.links) : Accepts a top (w.down l) := by
  obtain ⟨part, m⟩ := l
  cases hsound.fits hl with
  | lost hzero =>
    have hzero : w.node.mark.state = 0 := hzero
    omega
  | @restart p ts hone hkind htrees =>
    refine .fault (htext.cons fun around _ => ⟨p, List.mem_cons_self, ?_⟩)
    rw [htrees]
    rfl
  | @extra p hsame _ hp =>
    exact .program (htext.cons fun around haround => List.forall_mem_cons.mpr ⟨hp, haround⟩)
      (hsame.trans hstate)
  | symbol hleads =>
    have := hleads.two_le
    omega

/-- What lies on a stack when the text is accepted, the end of the text on top. -/
theorem Sound.popAll_accept (ha : a.Sound) (h : n.Sound a) {i : Item}
    (hi : i ∈ a.items n.mark.state) (hcomplete : (forms.entry i.form).complete = true)
    (hfile : headOf i.form = .file) {id : Nat} {eof : Part} (hextra : eof.extra = true)
    (heof : eof.IsExtra) :
    SlicesHold a
      (fun parts => (∀ p ∈ parts, p.extra = true) ∨ IsText AllExtra parts ∨ IsText SomeFaulty parts)
      (Node.push id 0 (some eof) n).popAll := by
  have htop : (Node.push id 0 (some eof) n).Sound a :=
    h.push (.lost rfl fun p hp _ => Option.some.inj hp ▸ heof)
  refine follow_induction
    (P := fun w => w.node.Sound a ∧ Accepts a (Node.push id 0 (some eof) n) w)
    (Q := SlicesHold a _) ?_ (fun _ _ hacc _ => hacc) ?_ _ ?_ (fun _ hs => nomatch hs)
  · rintro w ⟨hsound, hw⟩ - ⟨part, m⟩ hl
    refine ⟨hsound.down hl, ?_⟩
    cases hw with
    | top h =>
      subst h
      rw [links_push] at hl
      obtain ⟨rfl, rfl⟩ := Prod.mk.inj (List.mem_singleton.mp hl)
      exact .file (List.forall_mem_singleton.mpr ⟨hextra, heof⟩) hi hcomplete hfile
    | file hextras hi hcomplete hfile =>
      exact Accepts.file_down ha hsound hextras hi hcomplete hfile hl
    | program htext hstate => exact Accepts.program_down hsound htext hstate hl
    | fault htext =>
      cases part with
      | none => exact .fault htext
      | some p =>
        exact .fault (htext.cons fun around ⟨q, hq, hfaulty⟩ =>
          ⟨q, List.mem_cons_of_mem p hq, hfaulty⟩)
  · rintro acc w hacc ⟨hsound, hw⟩ -
    refine hacc.addSlice hsound ?_
    cases hw with
    | top h =>
      subst h
      exact .inl fun _ hp => nomatch hp
    | file hextras => exact .inl fun p hp => (hextras p hp).1
    | program htext => exact .inr (.inl htext)
    | fault htext => exact .inr (.inr htext)
  · rintro w hw
    obtain rfl := List.mem_singleton.mp hw
    exact ⟨htop, .top rfl⟩

/-- The parts of a text that was given up: behind a stretch that was passed over stands
only what may stand between symbols. -/
def IsGivenUp (parts : List Part) : Prop :=
  ∃ around top behind, parts = around ++ top :: behind ∧ top.extra = false ∧ top.kind = .error ∧
    ∀ p ∈ behind, p.extra = true

/-- What lies on a stack when the text is given up, the end of the text on top. -/
theorem Sound.popAll_giveUp (h : n.Sound a) {fault eof : Part} {id id' : Nat} {ts : List Tree}
    (hfault : fault.extra = false) (hkind : fault.kind = .error)
    (htrees : fault.trees = [.error ts]) (hextra : eof.extra = true) (heof : eof.IsExtra) :
    SlicesHold a (fun parts => (∀ p ∈ parts, p.extra = true) ∨ IsGivenUp parts)
      (Node.push id' 0 (some eof) (Node.push id 1 (some fault) n)).popAll := by
  have hbelow : (Node.push id 1 (some fault) n).Sound a := h.push (.restart rfl hkind htrees)
  have htop : (Node.push id' 0 (some eof) (Node.push id 1 (some fault) n)).Sound a :=
    hbelow.push (.lost rfl fun p hp _ => Option.some.inj hp ▸ heof)
  refine follow_induction
    (P := fun w => w.node.Sound a ∧
      (w = ⟨Node.push id' 0 (some eof) (Node.push id 1 (some fault) n), [], 0⟩ ∨
      (w.node = Node.push id 1 (some fault) n ∧ w.parts = [eof]) ∨ IsGivenUp w.parts))
    (Q := SlicesHold a _) ?_ (fun _ _ hacc _ => hacc) ?_ _ ?_ (fun _ hs => nomatch hs)
  · rintro w ⟨hsound, hcases⟩ - ⟨part, m⟩ hl
    refine ⟨hsound.down hl, ?_⟩
    rcases hcases with rfl | ⟨hnode, hparts⟩ | ⟨around, top, behind, hparts, hrest⟩
    · rw [links_push] at hl
      obtain ⟨rfl, rfl⟩ := Prod.mk.inj (List.mem_singleton.mp hl)
      exact .inr (.inl ⟨rfl, rfl⟩)
    · rw [hnode, links_push] at hl
      obtain ⟨rfl, rfl⟩ := Prod.mk.inj (List.mem_singleton.mp hl)
      refine .inr (.inr ⟨[], fault, [eof], ?_, hfault, hkind, ?_⟩)
      · show fault :: w.parts = [fault, eof]
        rw [hparts]
      · intro p hp
        rw [List.mem_singleton.mp hp]
        exact hextra
    · refine .inr (.inr ?_)
      cases part with
      | none => exact ⟨around, top, behind, hparts, hrest⟩
      | some p => exact ⟨p :: around, top, behind, congrArg (p :: ·) hparts, hrest⟩
  · rintro acc w hacc ⟨hsound, hcases⟩ -
    refine hacc.addSlice hsound ?_
    rcases hcases with rfl | ⟨-, hparts⟩ | hgiven
    · exact .inl fun _ hp => nomatch hp
    · refine .inl fun p hp => ?_
      rw [hparts] at hp
      rw [List.mem_singleton.mp hp]
      exact hextra
    · exact .inr hgiven
  · rintro w hw
    obtain rfl := List.mem_singleton.mp hw
    exact ⟨htop, .inl rfl⟩

end Node

end SourceShelf.Java
