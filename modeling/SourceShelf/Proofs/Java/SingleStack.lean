import SourceShelf.Proofs.Java.Decisions
import SourceShelf.Proofs.Java.Follows

/-!
# Reading without a choice

A reader that never has two things to do keeps one stack.  `Entry` is what such a stack
holds at one height, a symbol and its trees, and the comments behind it; `Node.Holds` says
that a stack holds just some entries and stands in the state that belongs to their symbols.

`Turns` and `ReadsTo` are a run of such a reader, said with the decisions of the states
alone: phrases that end at a word, the word, and so on up to the end of the text.  Comments
are put behind what was read, whatever the state.  `ReadsTo.read` says that the reader reads
the text so.
-/

namespace SourceShelf.Java

/-- What a stack holds at one height: a symbol and its trees, and the comments behind it. -/
structure Entry where
  symbol : Symbol
  trees : List Tree
  comments : List Tree := []

/-- The symbols of some entries. -/
abbrev symbolsOf (es : List Entry) : List Symbol := es.map Entry.symbol

/-- The trees of an entry, with the comments. -/
def Entry.allTrees (e : Entry) : List Tree := e.trees ++ e.comments

/-- The trees of an entry as they lie on a stack, each comment alone and marked as one. -/
def Entry.views (e : Entry) : List (Bool × List Tree) :=
  (false, e.trees) :: e.comments.map fun t => (true, [t])

theorem Entry.flatMap_views (e : Entry) : e.views.flatMap Prod.snd = e.allTrees := by
  rw [views, List.flatMap_cons, List.flatMap_map]
  exact congrArg (e.trees ++ ·) (List.flatMap_singleton' e.comments)

/-- The trees of some entries, the topmost of which comes first, up to the comments behind it. -/
def treesOf : List Entry → List Tree
  | [] => []
  | e :: es => es.reverse.flatMap Entry.allTrees ++ e.trees

/-- The comments behind some entries, the topmost of which comes first. -/
def commentsOn (es : List Entry) : List Tree := es.head?.elim [] Entry.comments

/-- How many trees some entries have on a stack, each symbol counted for one. -/
def heightOf (es : List Entry) : Nat := (es.map fun e => e.comments.length + 1).sum

/-! ## One stack -/

/-- Words that are shown as they are. -/
theorem Part.shownAs_nil (p : Part) : p.shownAs [] = p.trees := by
  unfold Part.shownAs
  split <;> simp

namespace Node

variable {a b : Automaton} {es rest : List Entry} {e : Entry} {n : Node} {parts : List Part}

/-- A stack holds just some entries, the topmost first. -/
inductive Holds (a : Automaton) : List Entry → Node → Prop where
  | base (c : Cursor) : Holds a [] (base c)
  | push {es : List Entry} {below : Node} {p : Part} {x : Symbol} {id state : Nat}
      (h : Holds a es below) (hextra : p.extra = false) (hkind : p.kind = .symbol x)
      (hpos : 1 ≤ state) (hlt : state < a.states.size)
      (hstate : a.state state = stateOf (x :: symbolsOf es)) :
      Holds a (⟨x, p.trees, []⟩ :: es) (below.push id state (some p))
  | comment {e : Entry} {es : List Entry} {n : Node} {p : Part} {t : Tree} {id : Nat}
      (h : Holds a (e :: es) n) (hextra : p.extra = true) (htrees : p.trees = [t]) :
      Holds a ({ e with comments := e.comments ++ [t] } :: es) (n.push id n.mark.state (some p))

theorem Holds.mono (h : Holds a es n) (hab : a ≤ b) : Holds b es n := by
  induction h with
  | base c => exact .base c
  | push _ hextra hkind hpos hlt hstate ih =>
    exact .push ih hextra hkind hpos (Nat.lt_of_lt_of_le hlt hab.size)
      ((hab.state _ hlt).trans hstate)
  | comment _ hextra htrees ih => exact .comment ih hextra htrees

/-- The state of the stack is the one behind its symbols. -/
theorem Holds.state (h : Holds a es n) (ha : a.Sound) :
    1 ≤ n.mark.state ∧ n.mark.state < a.states.size ∧
      a.state n.mark.state = stateOf (symbolsOf es) := by
  induction h with
  | base c => exact ⟨Nat.le_refl 1, ha.size, ha.start⟩
  | push _ _ _ hpos hlt hstate => exact ⟨hpos, hlt, hstate⟩
  | comment _ _ _ ih => exact ih

/-- Parts stand for some entries, the topmost of which comes first. -/
structure Stands (es : List Entry) (parts : List Part) : Prop where
  kinds : (parts.filter (!·.extra)).map Part.kind = es.reverse.map fun e => .symbol e.symbol
  views : parts.map (fun p => (p.extra, p.trees)) = es.reverse.flatMap Entry.views

theorem stands_nil : Stands [] [] := ⟨rfl, rfl⟩

theorem stands_singleton {p : Part} {x : Symbol} (hextra : p.extra = false)
    (hkind : p.kind = .symbol x) : Stands [⟨x, p.trees, []⟩] [p] where
  kinds := by simp [hextra, hkind]
  views := by simp [Entry.views, hextra]

/-- A comment behind the topmost entry. -/
theorem Stands.comment (h : Stands [e] parts) {p : Part} {t : Tree} (hextra : p.extra = true)
    (htrees : p.trees = [t]) :
    Stands [{ e with comments := e.comments ++ [t] }] (parts ++ [p]) where
  kinds := by
    rw [List.filter_append, List.map_append, h.kinds]
    simp [hextra]
  views := by
    rw [List.map_append, h.views]
    simp [Entry.views, hextra, htrees]

theorem Stands.concat (h : Stands es parts) {more : List Part} (hmore : Stands [e] more) :
    Stands (e :: es) (parts ++ more) where
  kinds := by
    rw [List.filter_append, List.map_append, h.kinds, hmore.kinds]
    simp
  views := by
    rw [List.map_append, h.views, hmore.views]
    simp

/-- One step down a stack that has one link. -/
theorem follow_down {α : Type} {stop : Walk → Bool} {found : α → Walk → α} {w : Walk}
    {l : Option Part × Node} (hlinks : w.node.links = [l]) (hstop : stop w = false) (fuel : Nat)
    (acc : α) :
    follow stop (fun acc _ => acc) found (fuel + 1) [w] acc =
      follow stop (fun acc _ => acc) found fuel [w.down l] acc := by
  rw [follow.eq_3 stop (fun acc _ => acc) found [w] acc fuel (List.cons_ne_nil w [])]
  simp [hstop, hlinks, maxWalks]

/-- A walk down a stack that is not stopped takes the parts of the topmost entry off. -/
theorem Holds.follow_entry {α : Type} (stop : Walk → Bool) (found : α → Walk → α) {w : Walk}
    (h : Holds a (e :: rest) w.node)
    (hstop : ∀ v : Walk, v.count ≤ w.count → v.node.links ≠ [] → stop v = false)
    (fuel : Nat) (acc : α) :
    ∃ below parts, Holds a rest below ∧ Stands [e] parts ∧
      (∃ p, parts.getLast? = some p ∧ p.stop = w.node.mark.cursor) ∧
      Node.follow stop (fun acc _ => acc) found (e.comments.length + 1 + fuel) [w] acc =
        Node.follow stop (fun acc _ => acc) found fuel
          [{ node := below, parts := parts ++ w.parts, count := w.count + 1 }] acc := by
  generalize hes : e :: rest = es at h
  generalize hn : w.node = n at h
  induction h generalizing e w with
  | base c => cases hes
  | @push es below p x id state hbelow hextra hkind _ _ _ =>
    obtain ⟨rfl, rfl⟩ := List.cons.inj hes
    have hlinks : w.node.links = [(some p, below)] := by rw [hn]; rfl
    refine ⟨below, [p], hbelow, stands_singleton hextra hkind, ⟨p, rfl, rfl⟩, ?_⟩
    have hgo : stop w = false := hstop w (Nat.le_refl _) (by simp [hlinks])
    rw [List.length_nil, Nat.zero_add, Nat.add_comm, follow_down hlinks hgo]
    simp [Walk.down, hextra]
  | @comment e' es n' p t id _ hextra htrees ih =>
    obtain ⟨rfl, rfl⟩ := List.cons.inj hes
    have hlinks : w.node.links = [(some p, n')] := by rw [hn]; rfl
    obtain ⟨below, parts, hbelow, hstands, -, hfollow⟩ :=
      ih (w := { node := n', parts := p :: w.parts, count := w.count }) hstop rfl rfl
    refine ⟨below, parts ++ [p], hbelow, hstands.comment hextra htrees,
      ⟨p, List.getLast?_concat, rfl⟩, ?_⟩
    have hgo : stop w = false := hstop w (Nat.le_refl _) (by simp [hlinks])
    have hdown : w.down (some p, n') =
        { node := n', parts := p :: w.parts, count := w.count } := by
      simp [Walk.down, hextra]
    have hheight : (e'.comments ++ [t]).length + 1 + fuel = e'.comments.length + 1 + fuel + 1 := by
      rw [List.length_append, List.length_singleton]
      omega
    rw [hheight, follow_down hlinks hgo, hdown, hfollow, List.append_assoc]
    rfl

/-- A walk down a stack that is not stopped takes parts off, up to the topmost one. -/
theorem Holds.follow {α : Type} (stop : Walk → Bool) (found : α → Walk → α) {w : Walk}
    (h : Holds a (es ++ rest) w.node)
    (hstop : ∀ v : Walk, v.count < w.count + es.length → v.node.links ≠ [] → stop v = false)
    (fuel : Nat) (acc : α) :
    ∃ below parts, Holds a rest below ∧ Stands es parts ∧
      (∀ p, parts.getLast? = some p → p.stop = w.node.mark.cursor) ∧
      Node.follow stop (fun acc _ => acc) found (heightOf es + fuel) [w] acc =
        Node.follow stop (fun acc _ => acc) found fuel
          [{ node := below, parts := parts ++ w.parts, count := w.count + es.length }] acc := by
  induction es generalizing w with
  | nil => exact ⟨w.node, [], h, stands_nil, by simp, by simp [heightOf]⟩
  | cons e es ih =>
    obtain ⟨under, more, hunder, hmore, ⟨top, hlast, hcursor⟩, hentry⟩ :=
      Holds.follow_entry stop found h (fun v hv => hstop v (by rw [List.length_cons]; omega))
        (heightOf es + fuel) acc
    obtain ⟨below, parts, hbelow, hstands, -, hfollow⟩ :=
      ih (w := { node := under, parts := more ++ w.parts, count := w.count + 1 }) hunder
        fun v hv => hstop v (by rw [List.length_cons]; dsimp only at hv; omega)
    refine ⟨below, parts ++ more, hbelow, hstands.concat hmore, fun q hq => ?_, ?_⟩
    · rw [List.getLast?_append, hlast] at hq
      obtain rfl := Option.some.inj hq
      exact hcursor
    · have hheight : heightOf (e :: es) + fuel =
          e.comments.length + 1 + (heightOf es + fuel) := by
        simp [heightOf, Nat.add_assoc]
      rw [hheight, hentry, hfollow]
      simp [Nat.add_assoc, Nat.add_comm 1]

/-- A walk that is stopped finds what it has taken off. -/
theorem follow_found {α : Type} {stop : Walk → Bool} {found : α → Walk → α} {w : Walk}
    (hstop : stop w = true) (fuel : Nat) (acc : α) :
    follow stop (fun acc _ => acc) found (fuel + 1) [w] acc = found acc w := by
  rw [follow.eq_3 stop (fun acc _ => acc) found [w] acc fuel (List.cons_ne_nil w [])]
  simp only [List.foldl_cons, List.foldl_nil, hstop, if_true, List.reverse_nil, List.append_nil]
  cases fuel <;> rfl

/-- More parts than are ever taken off at once. -/
def depth : Nat := 4000

theorem depth_lt_depthBound (n : Node) : depth + 1 < n.depthBound := by
  unfold depth depthBound
  omega

/-- Parts are taken off for the topmost entries. -/
theorem Holds.pop (h : Holds a (es ++ rest) n) (hes : heightOf es ≤ depth) :
    ∃ below parts, Holds a rest below ∧ Stands es parts ∧
      (∀ p, parts.getLast? = some p → p.stop = n.mark.cursor) ∧
      n.pop es.length = [(below, [parts])] := by
  obtain ⟨fuel, hfuel⟩ := Nat.exists_eq_add_of_lt
    (Nat.lt_of_le_of_lt hes (Nat.lt_of_succ_lt n.depth_lt_depthBound))
  obtain ⟨below, parts, hbelow, hstands, hlast, hfollow⟩ :=
    Holds.follow (·.count == es.length) addSlice (w := { node := n, parts := [], count := 0 }) h
      (fun v hv _ => by simpa using Nat.ne_of_lt (by simpa using hv)) (fuel + 1) []
  refine ⟨below, parts, hbelow, hstands, hlast, ?_⟩
  rw [Node.pop, hfuel, Nat.add_assoc, hfollow, follow_found (by simp)]
  simp [addSlice]

/-- With the end of the text on top, all parts are taken off. -/
theorem Holds.popAll (h : Holds a es n) (hes : heightOf es ≤ depth) (id : Nat) {p : Part}
    (hextra : p.extra = true) :
    ∃ below parts, Stands es parts ∧
      (n.push id Head.lost (some p)).popAll = [(below, [parts ++ [p]])] := by
  have hbound := (n.push id Head.lost (some p)).depth_lt_depthBound
  have hbase : ∀ {m : Node}, Holds a [] m → m.links = [] := fun h => by cases h; rfl
  have h' : Holds a (es ++ []) n := by rwa [List.append_nil]
  have hlinks : (n.push id Head.lost (some p)).links = [(some p, n)] := rfl
  generalize n.push id Head.lost (some p) = m at hbound hlinks
  obtain ⟨fuel, hfuel⟩ := Nat.exists_eq_add_of_lt
    (Nat.lt_of_le_of_lt (Nat.succ_le_succ hes) hbound)
  have hdown : Walk.down { node := m, parts := [], count := 0 } (some p, n) =
      { node := n, parts := [p], count := 0 } := by
    simp [Walk.down, hextra]
  obtain ⟨below, parts, hbelow, hstands, -, hfollow⟩ :=
    Holds.follow (·.node.links.isEmpty) addSlice (w := { node := n, parts := [p], count := 0 })
      (h' : Holds a (es ++ []) n)
      (fun v _ hv => by simpa using hv) (fuel + 1) []
  refine ⟨below, parts, hstands, ?_⟩
  have hturns : m.depthBound = (heightOf es + (fuel + 1)) + 1 := by omega
  rw [Node.popAll, hturns, follow_down hlinks (by simp [hlinks]), hdown, hfollow,
    follow_found (by simp [hbase hbelow])]
  simp [addSlice]

/-- The comments behind the topmost entry are split off. -/
structure Split (e : Entry) (es : List Entry) (front extras : List Part) : Prop where
  shown : front.flatMap (Part.shownAs []) = treesOf (e :: es)
  extra : ∀ p ∈ extras, p.extra = true
  trees : extras.map Part.trees = e.comments.map fun t => [t]
  ne_nil : front ≠ []

theorem Stands.split (h : Stands (e :: es) parts) :
    ∃ front extras, parts = front ++ extras ∧ Reader.splitExtras parts = (front, extras) ∧
      Split e es front extras := by
  have hviews := h.views
  rw [List.reverse_cons, List.flatMap_append, List.flatMap_singleton, Entry.views,
    ← List.singleton_append, ← List.append_assoc] at hviews
  obtain ⟨front, extras, rfl, hfront, hextras⟩ := List.map_eq_append_iff.mp hviews
  obtain ⟨under, tops, rfl, hunder, htops⟩ := List.map_eq_append_iff.mp hfront
  obtain ⟨top, rfl, htop⟩ := List.map_eq_singleton_iff.mp htops
  obtain ⟨htopExtra, htopTrees⟩ := Prod.mk.inj htop
  have hextra : ∀ p ∈ extras, p.extra = true := by
    intro p hp
    have hview := List.mem_map_of_mem hp (f := fun p : Part => (p.extra, p.trees))
    rw [hextras] at hview
    obtain ⟨t, -, ht⟩ := List.mem_map.mp hview
    exact (congrArg Prod.fst ht).symm
  have hbehind : (under ++ [top] ++ extras).reverse.takeWhile (·.extra) = extras.reverse := by
    rw [List.reverse_append, List.reverse_append, List.takeWhile_append_of_pos
      fun p hp => hextra p (List.mem_reverse.mp hp)]
    simp [htopExtra]
  refine ⟨under ++ [top], extras, rfl, ?_, ?_, hextra, ?_, by simp⟩
  · rw [Reader.splitExtras, hbehind, List.reverse_reverse, List.length_append,
      Nat.add_sub_cancel, List.take_left]
  · have hunderTrees := congrArg (List.flatMap Prod.snd) hunder
    rw [List.flatMap_map, List.flatMap_assoc] at hunderTrees
    rw [List.flatMap_congr fun p _ => Part.shownAs_nil p, List.flatMap_append,
      List.flatMap_singleton, htopTrees, hunderTrees, treesOf]
    exact congrArg (· ++ e.trees) (List.flatMap_congr fun e _ => e.flatMap_views)
  · have htrees := congrArg (List.map Prod.snd) hextras
    simpa [Function.comp_def] using htrees

/-- A stack with comments put on top. -/
def pushAll (state : Nat) : Nat → Node → List Part → Node
  | _, n, [] => n
  | id, n, p :: ps => pushAll state (id + 1) (n.push id state (some p)) ps

theorem Holds.pushAll (h : Holds a (e :: es) n) {ps : List Part}
    (hextra : ∀ p ∈ ps, p.extra = true) {ts : List Tree}
    (htrees : ps.map Part.trees = ts.map fun t => [t]) (id : Nat) :
    Holds a ({ e with comments := e.comments ++ ts } :: es)
      (Node.pushAll n.mark.state id n ps) := by
  induction ps generalizing n e ts id with
  | nil =>
    obtain rfl : ts = [] := by simpa using htrees.symm
    rwa [List.append_nil]
  | cons p ps ih =>
    obtain ⟨t, ts, rfl⟩ : ∃ t us, ts = t :: us := by
      cases ts with
      | nil => cases htrees
      | cons t us => exact ⟨t, us, rfl⟩
    obtain ⟨htree, htrees⟩ := List.cons.inj htrees
    have hcomment : Holds a _ (n.push id n.mark.state (some p)) :=
      .comment h (hextra p List.mem_cons_self) htree
    have hrest := ih hcomment (fun q hq => hextra q (List.mem_cons_of_mem p hq)) htrees (id + 1)
    rw [List.append_assoc] at hrest
    exact hrest

theorem cursor_pushAll (state id : Nat) (n : Node) (ps : List Part) :
    (Node.pushAll state id n ps).mark.cursor = ps.getLast?.elim n.mark.cursor Part.stop := by
  induction ps generalizing n id with
  | nil => rfl
  | cons p ps ih =>
    rw [Node.pushAll, ih]
    cases ps with
    | nil => rfl
    | cons q ps =>
      rw [List.getLast?_cons_cons, List.getLast?_eq_some_getLast (List.cons_ne_nil q ps)]
      rfl

end Node

theorem Part.trees_join (p : Phrase) (shown : List (Symbol × Token)) (preference : Int)
    (at_ : Cursor) (parts : List Part) :
    (join (.symbol (.phrase p)) shown preference at_ parts).trees =
      p.wrap (parts.flatMap (shownAs shown)) := by
  unfold join Phrase.wrap
  dsimp only
  split <;> rfl

theorem Part.stop_join (p : Phrase) (shown : List (Symbol × Token)) (preference : Int)
    (at_ : Cursor) (parts : List Part) :
    (join (.symbol (.phrase p)) shown preference at_ parts).stop =
      parts.getLast?.elim at_ Part.stop := rfl

theorem stop_ofLexeme (l : Lexeme) (extra : Bool) : (Part.ofLexeme l extra).stop = l.stop := by
  unfold Part.ofLexeme
  dsimp only
  split <;> rfl

/-- Where a state leads, if something goes on there. -/
theorem Automaton.Sound.goto_behind {a : Automaton} (ha : a.Sound) {s : Nat} {x : Symbol}
    {xs : List Symbol} (hlt : s < a.states.size) (hstate : a.state s = stateOf xs)
    (hbehind : (stateOf xs).behind x ≠ []) :
    ∃ b m, a.goto s x = (b, some m) ∧ b.Sound ∧ a ≤ b ∧ 1 ≤ m ∧ m < b.states.size ∧
      b.state m = stateOf (x :: xs) := by
  obtain ⟨hsound, hle, hleads⟩ := ha.goto s x
  have hsome : ∃ m, (a.goto s x).2 = some m := by
    unfold Automaton.goto
    split
    · exact ⟨_, rfl⟩
    · rw [hstate]
      split
      · rename_i hnone
        exact absurd hnone hbehind
      · exact ⟨_, rfl⟩
  obtain ⟨m, hm⟩ := hsome
  have hlink := hleads m hm
  refine ⟨_, m, Prod.ext rfl hm, hsound, hle, Nat.le_of_succ_le hlink.two_le, hlink.lt_size, ?_⟩
  rw [hsound.eq_ofKernel (Nat.le_of_succ_le hlink.two_le) hlink.lt_size, hlink.kernel,
    hle.state s hlt, hstate]
  rfl

namespace Reader

open Node (Holds Stands depth)

variable {a : Automaton} {n : Node} {e : Entry} {es rest : List Entry}

/-- A reader with one stack. -/
def single (a : Automaton) (n : Node) (fresh : Nat) : Reader :=
  { automaton := a, heads := #[{ node := n }], fresh }

/-- Comments are put on the second of two stacks. -/
theorem run_pushAll (ps : List Part) (m : Nat) (n n' : Node) (fresh : Nat) :
    (forIn ps PUnit.unit fun p _ => do
      push 1 (some p) m
      pure (ForInStep.yield PUnit.unit) : Step PUnit).run
        { automaton := a, fresh, heads := #[{ node := n }, { node := n' }] } =
      pure (PUnit.unit, { automaton := a, fresh := fresh + ps.length,
                          heads := #[{ node := n }, { node := Node.pushAll m fresh n' ps }] }) := by
  induction ps generalizing n' fresh with
  | nil => rfl
  | cons p ps ih =>
    rw [List.forIn_cons]
    simp [push, modifyHead] at ih ⊢
    rw [ih, Nat.add_assoc, Nat.add_comm 1]
    rfl

/-- A phrase is ended, and the comments on top stay there. -/
theorem run_reduce (ha : a.Sound) (h : Holds a (es ++ rest) n) (hne : es ≠ [])
    (hes : heightOf es ≤ depth) {r : Reduction} (htaken : r.taken = es.length)
    (hshown : r.shown = []) (hbehind : (stateOf (symbolsOf rest)).behind (.phrase r.head) ≠ [])
    (fresh : Nat) :
    ∃ b n' fresh', b.Sound ∧
      Holds b (⟨.phrase r.head, r.head.wrap (treesOf es), commentsOn es⟩ :: rest) n' ∧
      n'.mark.cursor = n.mark.cursor ∧
      (reduce 0 r).run (single a n fresh) =
        pure (some 1, { automaton := b, fresh := fresh',
                        heads := #[{ node := n }, { node := n' }] }) := by
  obtain ⟨e, es, rfl⟩ := List.exists_cons_of_ne_nil hne
  obtain ⟨below, parts, hbelow, hstands, hlast, hpop⟩ := h.pop hes
  obtain ⟨front, extras, rfl, hsplit, hfront⟩ := hstands.split
  rw [← htaken] at hpop
  obtain ⟨-, hlt, hstate⟩ := hbelow.state ha
  obtain ⟨b, m, hgoto, hb, hle, hpos, hm, hnext⟩ := ha.goto_behind hlt hstate hbehind
  generalize hjoin : Part.join (.symbol (.phrase r.head)) [] 0 below.mark.cursor front = part
  have htrees : part.trees = r.head.wrap (treesOf (e :: es)) := by
    rw [← hjoin, Part.trees_join, hfront.shown]
  have hstop : part.stop = front.getLast?.elim below.mark.cursor Part.stop := by
    rw [← hjoin, Part.stop_join]
  have hextra : part.extra = false := by
    rw [← hjoin]
    rfl
  have hkind : part.kind = .symbol (.phrase r.head) := by
    rw [← hjoin]
    rfl
  refine ⟨b, Node.pushAll m (fresh + 1) (below.push fresh m
    (some { part with preference := part.preference + r.preference })) extras,
    fresh + 1 + extras.length, hb, ?_, ?_, ?_⟩
  · rw [← htrees]
    have hpart : Holds b (⟨.phrase r.head, part.trees, []⟩ :: rest) (below.push fresh m
        (some { part with preference := part.preference + r.preference })) :=
      .push (p := { part with preference := part.preference + r.preference })
        (hbelow.mono hle) hextra hkind hpos hm hnext
    exact hpart.pushAll hfront.extra hfront.trees (fresh + 1)
  · rw [Node.cursor_pushAll]
    show extras.getLast?.elim part.stop Part.stop = _
    rw [hstop]
    cases hextras : extras.getLast? with
    | none =>
      rw [List.getLast?_eq_none_iff] at hextras
      subst hextras
      rw [List.append_nil] at hlast
      have hget := List.getLast?_eq_some_getLast hfront.ne_nil
      rw [hget]
      exact hlast _ hget
    | some p =>
      refine hlast p ?_
      rw [List.getLast?_append, hextras, Option.some_or]
  · have hrun := run_pushAll (a := b) extras m n (below.push fresh m
      (some { part with preference := part.preference + r.preference })) (fresh + 1)
    simp [single, reduce, headCount, head, goto, addHead, push, modifyHead, mergeBefore,
      hshown, hpop, hgoto, hsplit, hjoin] at hrun ⊢
    rw [hrun]
    rfl

theorem run_replaceHead (b : Automaton) (n n' : Node) (fresh : Nat) :
    (replaceHead 1 0).run
      { automaton := b, fresh, heads := #[{ node := n }, { node := n' }] } =
      pure ((), single b n' fresh) := by
  simp [replaceHead, head, modifyHead, removeHead, single]

theorem run_goto {b : Automaton} {state m : Nat} {x : Symbol} (h : a.goto state x = (b, some m))
    (n : Node) (fresh : Nat) :
    (goto state x).run (single a n fresh) = pure (some m, single b n fresh) := by
  simp [goto, single, h]

theorem run_head (n : Node) (fresh : Nat) :
    (head 0).run (single a n fresh) = pure ({ node := n }, single a n fresh) := by
  simp [head, single]

theorem run_push (p : Part) (m : Nat) (n : Node) (fresh : Nat) :
    (push 0 (some p) m).run (single a n fresh) =
      pure ((), single a (n.push fresh m (some p)) (fresh + 1)) := by
  simp [push, modifyHead, single]

/-! ## One word -/

/-- A reader keeps one stack, which holds just some entries and has come to a place. -/
structure Keeps (es : List Entry) (c : Cursor) (r : Reader) : Prop where
  intro ::
  single : ∃ a n fresh, r = Reader.single a n fresh ∧ a.Sound ∧ Holds a es n ∧ n.mark.cursor = c

/-- A phrase ends at a word. -/
inductive Turn (t : Token) : List Entry → List Entry → Prop where
  | reduce {es rest : List Entry} {r : Reduction} (hne : es ≠ []) (hes : heightOf es ≤ depth)
      (haction : (stateOf (symbolsOf (es ++ rest))).actions t = [.reduce r])
      (htaken : r.taken = es.length) (hshown : r.shown = [])
      (hbehind : (stateOf (symbolsOf rest)).behind (.phrase r.head) ≠ []) :
      Turn t (es ++ rest) (⟨.phrase r.head, r.head.wrap (treesOf es), commentsOn es⟩ :: rest)

/-- Phrases end at a word, one after another. -/
inductive Turns (t : Token) : Nat → List Entry → List Entry → Prop where
  | nil {es : List Entry} : Turns t 0 es es
  | cons {k : Nat} {es es' es'' : List Entry} (h : Turn t es es') (hrest : Turns t k es' es'') :
      Turns t (k + 1) es es''

variable {c : Cursor} {r : Reader} {l : Lexeme} {t : Token} {es' : List Entry}

/-- The word that a reader with one stack finds. -/
def wordAt (es : List Entry) (c : Cursor) : Lexeme :=
  Lexer.next (stateOf (symbolsOf es)).words c

/-- The tree of a word. -/
def leafOf (t : Token) (l : Lexeme) : Tree := .leaf t l.start.place.chars l.stop.place.chars

/-- The entry of a word. -/
def entryOf (t : Token) (l : Lexeme) : Entry := ⟨.token t, [leafOf t l], []⟩

/-- What a reader with one stack does last at a word: it takes the word, or it accepts. -/
inductive Last (es : List Entry) (l : Lexeme) (t : Token) (Q : Unit → Reader → Prop) : Prop where
  | shift (haction : (stateOf (symbolsOf es)).actions t = [.shift])
      (hbehind : (stateOf (symbolsOf es)).behind (.token t) ≠ []) (hend : t ≠ .endOfFile)
      (hQ : ∀ r', Keeps (entryOf t l :: es) l.stop r' → Q () r')
  | accept (haction : (stateOf (symbolsOf es)).actions t = [.accept])
      (hQ : ∀ a n fresh, Holds a es n → After (Reader.accept 0 l) (single a n fresh) Q)

/-- A reader with one stack looks at the next word in the state behind what it has read. -/
theorem lookahead_eq (ha : a.Sound) (h : Holds a es n) (hcursor : n.mark.cursor = c)
    (fresh : Nat) :
    Lexer.next (if ((single a n fresh).headAt 0).state == Head.lost then Lexer.everyWord
        else (a.state ((single a n fresh).headAt 0).state).words)
      ((single a n fresh).headAt 0).node.mark.cursor = wordAt es c := by
  obtain ⟨hpos, -, hstate⟩ := h.state ha
  have hlost : ¬ ((single a n fresh).headAt 0).state = Head.lost := Nat.ne_of_gt hpos
  simp only [beq_iff_eq, if_neg hlost]
  exact congrArg₂ Lexer.next (congrArg State.words hstate) hcursor

/-- A reader with one stack puts a comment behind what it has read. -/
theorem after_advance_comment (h : Keeps (e :: es) c r)
    (hword : (wordAt (e :: es) c).word = some t) (hcomment : t.isComment = true) :
    After (advance 0) r fun _ r' =>
      Keeps ({ e with comments := e.comments ++ [leafOf t (wordAt (e :: es) c)] } :: es)
        (wordAt (e :: es) c).stop r' := by
  obtain ⟨a, n, fresh, rfl, ha, hholds, hcursor⟩ := h
  have hend : t ≠ .endOfFile := by
    rintro rfl
    cases hcomment
  obtain ⟨hextra, -, htrees⟩ := ofLexeme_of_word hword hend true
  unfold advance
  refine after_bind (after_head (after_get ?_))
  extract_lets -underBinder automaton words lookahead
  have hlookahead : lookahead = wordAt (e :: es) c := lookahead_eq ha hholds hcursor fresh
  clear_value lookahead
  rw [hlookahead, hword, if_pos (by simpa using hcomment)]
  exact ⟨_, _, _, rfl, ha, hholds.comment hextra htrees, stop_ofLexeme _ true⟩

/-- A reader with one stack ends phrases at a word, and then takes the word or accepts. -/
theorem after_advance_turns {k : Nat} {Q : Unit → Reader → Prop} (h : Keeps es c r)
    (hword : (wordAt es c).word = some t) (hcomment : t.isComment = false)
    (hturns : Turns t k es es') (hk : k < 1024) (hlast : Last es' (wordAt es c) t Q) :
    After (advance 0) r Q := by
  obtain ⟨a, n, fresh, rfl, ha, hholds, hcursor⟩ := h
  unfold advance
  refine after_bind (after_head (after_get ?_))
  extract_lets -underBinder automaton words lookahead
  have hlookahead : lookahead = wordAt es c := lookahead_eq ha hholds hcursor fresh
  clear_value lookahead
  rw [hlookahead, hword, if_neg (by simp [hcomment])]
  refine After.bind (P := fun s r' => Q () r' ∧ s.1 = some ()) ?_ ?_
  · refine after_forIn_range_leave (fun k (s : Option Unit × Lexeme) r' =>
      s = (none, wordAt es c) ∧ ∃ es₁, Keeps es₁ c r' ∧ Turns t k es₁ es')
      ⟨rfl, es, ⟨a, n, fresh, rfl, ha, hholds, hcursor⟩, hturns⟩ (by omega) ?_ ?_
    · rintro k x - - ⟨rfl, es₁, ⟨a₁, n₁, fresh₁, rfl, ha₁, hholds₁, hcursor₁⟩, hturns₁⟩
      obtain - | ⟨hturn, hrest⟩ := hturns₁
      obtain ⟨hne, hes, haction, htaken, hshown, hbehind⟩ := hturn
      rename_i red
      obtain ⟨b, n₂, fresh₂, hb, hholds₂, hcursor₂, hreduce⟩ :=
        run_reduce ha₁ hholds₁ hne hes htaken hshown hbehind fresh₁
      have hactions : ((single a₁ n₁ fresh₁).automaton.state n₁.mark.state).actions t =
          [.reduce red] := by
        rw [← haction, ← (hholds₁.state ha₁).2.2]
        rfl
      have hhead : (single a₁ n₁ fresh₁).heads[0]? = some { node := n₁ } := rfl
      suffices hbody : After _ (single a₁ n₁ fresh₁) fun s r' =>
          s = ForInStep.yield (none, wordAt es c) ∧ r' = single b n₂ fresh₂ by
        refine hbody.mono ?_
        rintro - - ⟨rfl, rfl⟩
        exact ⟨_, rfl, rfl, _, ⟨b, n₂, fresh₂, rfl, hb, hholds₂,
          hcursor₂.trans hcursor₁⟩, hrest⟩
      unfold After
      simp [head, actions, Head.state, hword, hhead, hactions, hreduce, run_replaceHead]
      exact ⟨rfl, rfl⟩
    · rintro x - - ⟨rfl, es₁, ⟨a₁, n₁, fresh₁, rfl, ha₁, hholds₁, hcursor₁⟩, hturns₁⟩
      cases hturns₁
      obtain ⟨-, hlt₁, hstate₁⟩ := hholds₁.state ha₁
      have hhead : (single a₁ n₁ fresh₁).heads[0]? = some { node := n₁ } := rfl
      generalize wordAt es c = l at hword hlast
      rcases hlast with ⟨haction, hbehind, hend, hQ⟩ | ⟨haction, hQ⟩
      · have hactions : ((single a₁ n₁ fresh₁).automaton.state n₁.mark.state).actions t =
            [.shift] := by
          rw [← haction, ← hstate₁]
          rfl
        obtain ⟨b, m, hgoto, hb, hle, hpos₂, hm, hnext⟩ := ha₁.goto_behind hlt₁ hstate₁ hbehind
        have hQ := hQ _ ⟨b, n₁.push fresh₁ m (some (Part.ofLexeme l false)), fresh₁ + 1, rfl, hb,
          ?_, ?_⟩
        · unfold After
          simp [head, actions, Head.state, hword, hhead, hactions, run_goto hgoto, run_push]
          exact ⟨⟨_, rfl⟩, hQ⟩
        · obtain ⟨hextra, hkind, htrees⟩ := ofLexeme_of_word hword hend false
          rw [entryOf, leafOf, ← htrees]
          exact .push (hholds₁.mono hle) hextra hkind hpos₂ hm hnext
        · exact stop_ofLexeme l false
      · have hactions : ((single a₁ n₁ fresh₁).automaton.state n₁.mark.state).actions t =
            [.accept] := by
          rw [← haction, ← hstate₁]
          rfl
        have hQ := hQ a₁ n₁ fresh₁ hholds₁
        unfold After at hQ ⊢
        simp [head, actions, Head.state, hword, hhead, hactions]
        generalize (Reader.accept 0 l).run (single a₁ n₁ fresh₁) = out at hQ ⊢
        exact ⟨⟨_, rfl⟩, hQ⟩
  · rintro ⟨done, lookahead⟩ r₁ ⟨hQ, hdone⟩
    dsimp only at hdone
    subst hdone
    exact hQ

/-! ## The end of the text -/

/-- A reader whose stack has been taken as a reading of the text. -/
structure Halted (trees : List Tree) (r : Reader) : Prop where
  heads : ∃ h, r.heads = #[h] ∧ h.status = .halted
  finished : ∃ whole, r.finished = some whole ∧ whole.trees = [.node .program trees]

/-- The trees of a program are taken as the reading of the text. -/
theorem after_accept_program {trees : List Tree}
    (h : Holds a [⟨.phrase .program, [.node .program trees], []⟩] n)
    (hword : l.word = some .endOfFile) (fresh : Nat) :
    After (accept 0 l) (single a n fresh) fun _ r' => Halted trees r' := by
  obtain ⟨hextra, hnone⟩ :
      (Part.ofLexeme l true).extra = true ∧ (Part.ofLexeme l true).trees = [] := by
    constructor <;> simp [Part.ofLexeme, hword]
  generalize hpart : Part.ofLexeme l true = part at hextra hnone
  obtain ⟨below, parts, hstands, hpop⟩ := h.popAll (Nat.le_of_ble_eq_true rfl) fresh hextra
  obtain ⟨top, rfl, htop⟩ := List.map_eq_singleton_iff.mp hstands.views
  obtain ⟨htop, htrees⟩ := Prod.mk.inj htop
  have hkind : top.kind = .symbol (.phrase .program) := by
    simpa [htop] using hstands.kinds
  have hbehind : [part, top].takeWhile (·.extra) = [part] := by
    simp [hextra, htop]
  unfold After
  simp [accept, run_head, run_push, hpart, hpop, hbehind, hkind, htrees, hnone, modifyHead]
  exact ⟨⟨_, rfl, rfl⟩, ⟨_, rfl, rfl⟩⟩

/-! ## Rounds -/

variable {trees : List Tree}

/-- One stack is neither dropped nor joined with another. -/
theorem after_condense_single (fresh : Nat) :
    After condense (single a n fresh) fun _ r' => r' = single a n fresh := by
  unfold condense
  refine (after_forIn_range (fun s r' => r' = single a n fresh ∧ s.2 ≤ 1)
    ⟨rfl, Nat.zero_le 1⟩ ?_).bind ?_
  · rintro turn ⟨least, i⟩ r₁ ⟨rfl, hi⟩
    refine after_bind (after_headCount ?_)
    split
    · exact ⟨rfl, hi⟩
    · rename_i hfirst
      obtain rfl : i = 0 := Nat.lt_one_iff.mp (Nat.lt_of_not_le hfirst)
      refine after_bind (after_head ?_)
      split
      · rename_i hhalted
        cases hhalted
      · extract_lets -underBinder rank compared
        have hcompared : ∀ least, After (compared () least) (single a n fresh)
            fun s r' => r' = single a n fresh ∧ s.value.2 ≤ 1 := by
          intro least
          dsimp only [compared]
          -- there is no stack before the first one
          refine (after_forIn_range (fun s r' => r' = single a n fresh ∧ s = (0, 0, true))
            ⟨rfl, rfl⟩ ?_).bind ?_
          · rintro turn - - ⟨rfl, rfl⟩
            exact ⟨rfl, rfl⟩
          · rintro - - ⟨rfl, rfl⟩
            exact ⟨rfl, Nat.le_refl 1⟩
        clear_value compared
        split <;> exact hcompared _
  · rintro ⟨least, i⟩ r₁ ⟨rfl, -⟩
    refine after_bind (after_modify ?_)
    refine after_bind (after_headCount ?_)
    have hactive : ∀ v, ((single a n fresh).headAt v).status = .active := by
      intro v
      cases v <;> rfl
    refine (after_forIn_range (fun _ r' => r' = single a n fresh) rfl ?_).bind fun _ _ h' => h'
    rintro turn ⟨least, running, v⟩ r₂ rfl
    refine after_bind (after_head ?_)
    dsimp only
    rw [hactive]
    exact rfl

theorem after_condense_halted (h : Halted trees r) :
    After condense r fun least r' => least = none ∧ r'.finished = r.finished := by
  obtain ⟨⟨last, hheads, hstatus⟩, -⟩ := h
  have hturns : List.range' 0 200 = 0 :: 1 :: List.range' 2 198 := rfl
  unfold After
  simp [condense, headCount, head, hturns, hheads, Head.isHalted, hstatus, removeHead]
  exact ⟨rfl, rfl⟩

/-- A round of one stack is a step that takes it on, or one that halts it. -/
theorem after_round_single {P : Nat → Reader → Prop} {last width : Nat} (hone : r.heads.size = 1)
    (hactive : (r.headAt 0).isActive = true)
    (h : After (advance 0) r fun _ r' => r'.heads.size = 1 ∧
      if last < (r'.headAt 0).place.bytes then P (r'.headAt 0).place.bytes r'
      else P last r' ∧ (r'.headAt 0).isActive = false) :
    After (round last (width + 1)) r P := by
  unfold round
  refine After.bind (P := P) ?_ fun _ _ h => h
  rw [Std.Legacy.Range.forIn_eq_forIn_range']
  change After (forIn (0 :: 1 :: List.range' 2 62) last _) r P
  refine after_forIn_cons (after_bind (after_headCount ?_))
  rw [if_neg (by omega)]
  refine After.bind (P := fun last' r' => r'.heads.size = 1 ∧ P last' r') ?_ ?_
  · rw [Std.Legacy.Range.forIn_eq_forIn_range']
    have hturns : List.range' 0 ([0:width + 1] : Std.Legacy.Range).size =
        0 :: List.range' 1 width := by
      simp [Std.Legacy.Range.size, List.range'_succ]
    change After (forIn (List.range' 0 ([0:width + 1] : Std.Legacy.Range).size) last _) r _
    rw [hturns]
    refine after_forIn_cons (after_bind (after_head ?_))
    rw [if_neg (by simp [hactive])]
    refine h.bind ?_
    rintro - r₁ ⟨hone₁, hnext⟩
    refine after_bind (after_head ?_)
    dsimp only
    split at hnext
    · rename_i hon
      rw [if_pos (by simp [hon])]
      exact ⟨hone₁, hnext⟩
    · rename_i hstay
      rw [if_neg (by simpa using hstay)]
      -- the stack is not active any more, so the loop is left at the next turn
      refine after_pure (after_forIn_left (fun last' r' => (r'.heads.size = 1 ∧ P last' r') ∧
        (r'.headAt 0).isActive = false) ⟨⟨hone₁, hnext.1⟩, hnext.2⟩ (fun _ _ h' => h'.1) ?_)
      rintro turn - last' r' ⟨hP, hleft⟩
      refine after_bind (after_head ?_)
      rw [if_pos (by simp [hleft])]
      exact hP
  · rintro last' r' ⟨hone', hP⟩
    refine after_pure (after_forIn_cons (after_bind (after_headCount ?_)))
    rw [if_pos (by omega)]
    exact hP

/-- A run of a reader that keeps one stack, over the rest of a text: words that it takes,
each after the phrases that end at the word, and the end of the text. -/
inductive ReadsTo (trees : List Tree) : Nat → List Entry → Cursor → Prop where
  | accept {es : List Entry} {c : Cursor} {k : Nat}
      (hword : (wordAt es c).word = some .endOfFile)
      (hturns : Turns .endOfFile k es [⟨.phrase .program, [.node .program trees], []⟩])
      (hk : k < 1024) (haction : (stateOf [.phrase .program]).actions .endOfFile = [.accept]) :
      ReadsTo trees 0 es c
  | shift {n k : Nat} {es es' : List Entry} {c : Cursor} {t : Token}
      (hword : (wordAt es c).word = some t) (hcomment : t.isComment = false)
      (hend : t ≠ .endOfFile) (hon : c.place.bytes < (wordAt es c).stop.place.bytes)
      (hturns : Turns t k es es') (hk : k < 1024)
      (haction : (stateOf (symbolsOf es')).actions t = [.shift])
      (hbehind : (stateOf (symbolsOf es')).behind (.token t) ≠ [])
      (hrest : ReadsTo trees n (entryOf t (wordAt es c) :: es') (wordAt es c).stop) :
      ReadsTo trees (n + 1) es c
  | comment {n : Nat} {e : Entry} {es : List Entry} {c : Cursor} {t : Token}
      (hword : (wordAt (e :: es) c).word = some t) (hcomment : t.isComment = true)
      (hon : c.place.bytes < (wordAt (e :: es) c).stop.place.bytes)
      (hrest : ReadsTo trees n
        ({ e with comments := e.comments ++ [leafOf t (wordAt (e :: es) c)] } :: es)
        (wordAt (e :: es) c).stop) :
      ReadsTo trees (n + 1) (e :: es) c

theorem Keeps.headAt (h : Keeps es c r) :
    r.heads.size = 1 ∧ (r.headAt 0).isActive = true ∧ (r.headAt 0).place = c.place := by
  obtain ⟨a, n, fresh, rfl, -, -, rfl⟩ := h
  exact ⟨rfl, rfl, rfl⟩

theorem Halted.headAt (h : Halted trees r) :
    r.heads.size = 1 ∧ (r.headAt 0).isActive = false := by
  obtain ⟨⟨last, hheads, hstatus⟩, -⟩ := h
  simp [Reader.headAt, hheads, Head.isActive, hstatus]

/-- A round takes a reader that keeps one stack on. -/
theorem after_rounds_on {Q : Unit → Reader → Prop} {es' : List Entry} {c' : Cursor}
    {width fuel last : Nat} (hr : Keeps es c r) (hlast : last ≤ c.place.bytes)
    (hon : c.place.bytes < c'.place.bytes)
    (hadvance : After (advance 0) r fun _ r' => Keeps es' c' r')
    (hrest : ∀ r', Keeps es' c' r' → After (rounds fuel c'.place.bytes (width + 1)) r' Q) :
    After (rounds (fuel + 1) last (width + 1)) r Q := by
  obtain ⟨hone, hactive, -⟩ := hr.headAt
  unfold rounds
  refine After.bind (P := fun last' r' => last' = c'.place.bytes ∧ Keeps es' c' r')
    (after_round_single hone hactive ?_) ?_
  · refine hadvance.mono fun _ r' h' => ?_
    obtain ⟨hone', -, hplace⟩ := h'.headAt
    rw [hplace, if_pos (by omega)]
    exact ⟨hone', rfl, h'⟩
  · rintro - r' ⟨rfl, a, n, fresh, rfl, ha, hholds, hcursor⟩
    refine after_bind (after_headCount ?_)
    refine (after_condense_single fresh).bind ?_
    rintro least - rfl
    refine after_get ?_
    exact hrest _ ⟨a, n, fresh, rfl, ha, hholds, hcursor⟩

/-- The rounds of a reader that keeps one stack end with the reading. -/
theorem after_rounds_single (width : Nat) {n fuel last : Nat} (h : ReadsTo trees n es c)
    (hr : Keeps es c r) (hlast : last ≤ c.place.bytes) (hfuel : n < fuel) :
    After (rounds fuel last (width + 1)) r fun _ r' =>
      ∃ whole, r'.finished = some whole ∧ whole.trees = [.node .program trees] := by
  induction h generalizing fuel last r with
  | accept hword hturns hk haction =>
    obtain ⟨fuel, rfl⟩ := Nat.exists_eq_succ_of_ne_zero (Nat.ne_of_gt hfuel)
    obtain ⟨hone, hactive, -⟩ := hr.headAt
    unfold rounds
    refine After.bind (P := fun _ r' => Halted trees r') (after_round_single hone hactive ?_) ?_
    · refine (after_advance_turns hr hword rfl hturns hk (.accept haction fun a n fresh h =>
        after_accept_program h hword fresh)).mono fun _ r' h' => ?_
      refine ⟨h'.headAt.1, ?_⟩
      split
      · exact h'
      · exact ⟨h', h'.headAt.2⟩
    · intro last' r' h'
      refine after_bind (after_headCount ?_)
      refine (after_condense_halted h').bind ?_
      rintro - r₂ ⟨rfl, hfinished⟩
      obtain ⟨whole, hwhole, htrees⟩ := h'.finished
      rw [if_neg (by rw [h'.headAt.1]; exact Nat.one_ne_zero)]
      refine after_get ?_
      rw [hfinished, hwhole]
      exact ⟨whole, hfinished.trans hwhole, htrees⟩
  | @shift n k es es' c t hword hcomment hend hon hturns hk haction hbehind hrest ih =>
    obtain ⟨fuel, rfl⟩ := Nat.exists_eq_succ_of_ne_zero (Nat.ne_of_gt (Nat.zero_lt_of_lt hfuel))
    exact after_rounds_on hr hlast hon (after_advance_turns hr hword hcomment hturns hk
      (.shift haction hbehind hend fun _ h => h))
      fun r' hr' => ih hr' (Nat.le_refl _) (by omega)
  | comment hword hcomment hon hrest ih =>
    obtain ⟨fuel, rfl⟩ := Nat.exists_eq_succ_of_ne_zero (Nat.ne_of_gt (Nat.zero_lt_of_lt hfuel))
    exact after_rounds_on hr hlast hon (after_advance_comment hr hword hcomment)
      fun r' hr' => ih hr' (Nat.le_refl _) (by omega)

/-- A text that a reader with one stack can read so is read so. -/
theorem ReadsTo.read {text : String} {n : Nat} (h : ReadsTo trees n [] (Cursor.ofString text))
    (hn : n < 4 * text.length + 64) : Reader.read text = some (.node .program trees) := by
  unfold Reader.read
  have hstart : Keeps [] (Cursor.ofString text)
      { automaton := Automaton.initial
        heads := #[{ node := Node.base (Cursor.ofString text) }] } :=
    ⟨_, _, _, rfl, Automaton.sound_initial, .base _, rfl⟩
  obtain ⟨whole, hwhole, htrees⟩ :=
    after_rounds_single (4 * text.length + 63) h hstart (Nat.zero_le _) hn
  exact Option.bind_eq_some_iff.mpr ⟨whole, hwhole, by simp [htrees]⟩

end Reader

end SourceShelf.Java
