import Mathlib
import SourceShelf.Proofs.Files.Steps
import SourceShelf.Proofs.Source.Scan

/-!
# What is written is found

* `Node.at?_put`, `Node.shape_put`: what stands at a place when something is put
  there, and at the other places.
* `WrittenAt.follow`: a path that led to the place of a new file leads there still.
* `Disk.write_cases`: what is written is put at one place, or the disk takes nothing there.
* `Disk.find_write`: a file that was written is found where it was written.
* `Disk.write_write`: what is written again takes the place of what was written before.
-/

namespace SourceShelf.Files

variable {α : Type}

namespace Node

/-! ## Putting something at a place -/

/-- What stands at a place, without what is below it. -/
def shape : Node α → Node α
  | folder _ => folder []
  | n => n

private theorem lookup_filterMap (entries : List (String × Node α)) (name q : String)
    {f : Node α → Option (Node α)} (hf : ∀ n, (f n).isSome = true) :
    (entries.filterMap fun e => if e.1 = name then (f e.2).map (e.1, ·) else some e).lookup q =
      if q = name then (entries.lookup name).bind f else entries.lookup q := by
  induction entries with
  | nil => simp
  | cons e entries ih =>
    obtain ⟨m, hm⟩ := Option.isSome_iff_exists.mp (hf e.2)
    by_cases he : e.1 = name
    · rw [List.filterMap_cons_some (b := (e.1, m)) (by simp [he, hm]), List.lookup_cons, ih]
      by_cases hq : q = name
      · obtain ⟨k, n⟩ := e
        subst hq he
        simp [hm]
      · have hne : (q == e.1) = false := by simpa [he] using hq
        rw [hne, if_neg hq, if_neg hq, List.lookup_cons, hne]
    · rw [List.filterMap_cons_some (b := e) (by simp [he]), List.lookup_cons, ih]
      by_cases hq : q = name
      · have hne : (name == e.1) = false := by simpa using fun h => he h.symm
        rw [if_pos hq, if_pos hq, List.lookup_cons, hne, hq, hne]
      · rw [if_neg hq, if_neg hq, List.lookup_cons]

theorem lookup_alterEntries (entries : List (String × Node α)) (name q : String)
    {f : Option (Node α) → Option (Node α)} (hf : ∀ n, (f (some n)).isSome = true) :
    (alterEntries entries name f).lookup q =
      if q = name then f (entries.lookup name) else entries.lookup q := by
  unfold alterEntries
  by_cases hany : entries.any (·.1 = name) = true
  · obtain ⟨n, hn⟩ : ∃ n, entries.lookup name = some n := by
      rw [← Option.isSome_iff_exists, ← Option.ne_none_iff_isSome, ne_eq, List.lookup_eq_none_iff]
      obtain ⟨e, he, hname⟩ := List.any_eq_true.mp hany
      exact fun h => absurd (h e he) (by simpa using (of_decide_eq_true hname).symm)
    rw [if_pos hany, lookup_filterMap entries name q (f := fun n => f (some n)) hf, hn]
    rfl
  · have hnone : entries.lookup name = none := by
      rw [List.lookup_eq_none_iff]
      intro e he
      have hne : e.1 ≠ name := fun h => hany (List.any_eq_true.mpr ⟨e, he, by simpa using h⟩)
      simpa using fun h => hne h.symm
    rw [if_neg hany, hnone]
    rcases f none with _ | n
    · by_cases hq : q = name
      · rw [if_pos hq, hq, hnone]
      · rw [if_neg hq]
    · rw [List.lookup_append, List.lookup_cons]
      by_cases hq : q = name
      · simp [hq, hnone]
      · have hne : (q == name) = false := by simpa using hq
        simp [hq, hne]

/-- Changing an entry twice is changing it once, if the first change does not take it away. -/
theorem alterEntries_alterEntries (entries : List (String × Node α)) (name : String)
    {f : Option (Node α) → Option (Node α)} (hf : ∀ n, (f (some n)).isSome = true)
    (g : Option (Node α) → Option (Node α)) :
    alterEntries (alterEntries entries name f) name g =
      alterEntries entries name fun m => g (f m) := by
  have hothers (l : List (String × Node α)) (hl : l.any (·.1 = name) = false) :
      (l.filterMap fun e => if e.1 = name then (g (some e.2)).map (e.1, ·) else some e) = l := by
    conv_rhs => rw [← List.filterMap_some (l := l)]
    refine List.filterMap_congr fun e he => ?_
    rw [if_neg (by simpa using List.any_eq_false.mp hl e he)]
  by_cases hany : entries.any (·.1 = name) = true
  · have hkept : (alterEntries entries name f).any (·.1 = name) = true := by
      obtain ⟨e, he, hname⟩ := List.any_eq_true.mp hany
      obtain ⟨m, hm⟩ := Option.isSome_iff_exists.mp (hf e.2)
      rw [alterEntries, if_pos hany]
      refine List.any_eq_true.mpr ⟨(e.1, m), List.mem_filterMap.mpr ⟨e, he, ?_⟩, hname⟩
      rw [if_pos (of_decide_eq_true hname), hm]
      rfl
    rw [alterEntries, if_pos hkept, alterEntries, if_pos hany, alterEntries, if_pos hany,
      List.filterMap_filterMap]
    refine List.filterMap_congr fun e _ => ?_
    by_cases hname : e.1 = name
    · obtain ⟨m, hm⟩ := Option.isSome_iff_exists.mp (hf e.2)
      rw [if_pos hname, if_pos hname, hm]
      exact if_pos hname
    · rw [if_neg hname, if_neg hname]
      exact if_neg hname
  · rw [Bool.not_eq_true] at hany
    have hnot : ¬ entries.any (·.1 = name) = true := by rw [hany]; exact Bool.false_ne_true
    rw [alterEntries.eq_def entries name f, if_neg hnot,
      alterEntries.eq_def entries name fun m => g (f m), if_neg hnot]
    cases f none with
    | none => exact if_neg hnot
    | some n =>
      have hnew : (entries ++ [(name, n)]).any (·.1 = name) = true := by simp
      dsimp only
      rw [alterEntries, if_pos hnew, List.filterMap_append, hothers entries hany]
      cases hg : g (some n) <;> simp [hg]

section Put

variable (m : Node α)

/-- What was put at a place stands there, if the folder above it is there. -/
theorem at?_put (place : List String) (n : Node α)
    (h : ∀ front c, place = front ++ [c] → ∃ es, n.at? front = some (folder es)) :
    (n.alter (fun _ => some m) place).at? place = some m := by
  induction place generalizing n with
  | nil => rfl
  | cons c place ih =>
    cases place with
    | nil =>
      obtain ⟨es, hes⟩ := h [] c rfl
      obtain rfl := Option.some.inj hes
      have hlookup := lookup_alterEntries es c c (f := fun _ => some m) fun _ => rfl
      rw [if_pos rfl] at hlookup
      rw [alter, at?, child?, hlookup]
      rfl
    | cons c' place =>
      obtain ⟨front, last, hplace⟩ : ∃ front last, c' :: place = front ++ [last] :=
        ⟨_, _, (List.dropLast_append_getLast (List.cons_ne_nil c' place)).symm⟩
      obtain ⟨es, hes⟩ := h (c :: front) last (by rw [hplace]; rfl)
      rw [at?, Option.bind_eq_some_iff] at hes
      obtain ⟨k, hchild, -⟩ := hes
      cases n with
      | folder entries =>
        have hlookup : entries.lookup c = some k := hchild
        have haltered := lookup_alterEntries entries c c
          (f := fun m' => m'.map (alter (fun _ => some m) (c' :: place))) fun _ => rfl
        rw [if_pos rfl, hlookup] at haltered
        rw [alter, at?, child?, haltered]
        · refine ih k fun front last hplace => ?_
          obtain ⟨es, hes⟩ := h (c :: front) last (by rw [hplace]; rfl)
          rw [at?, hchild] at hes
          exact ⟨es, hes⟩
        · simp
      | file _ => cases hchild
      | link _ => cases hchild

/-- What stands at the other places stays, but for the entries of folders. -/
theorem shape_put (place q : List String) (n : Node α) (h : ¬ place <+: q) :
    ((n.alter (fun _ => some m) place).at? q).map shape = (n.at? q).map shape := by
  induction place generalizing n q with
  | nil => exact absurd List.nil_prefix h
  | cons c place ih =>
    cases n with
    | folder entries =>
      obtain ⟨f, hf, halter⟩ : ∃ f : Option (Node α) → Option (Node α),
          (∀ n, (f (some n)).isSome = true) ∧
          (folder entries).alter (fun _ => some m) (c :: place) =
            folder (alterEntries entries c f) ∧
          (place = [] ∨ f = fun m' => m'.map (alter (fun _ => some m) place)) := by
        cases place with
        | nil => exact ⟨fun _ => some m, fun _ => rfl, rfl, .inl rfl⟩
        | cons c' place => exact ⟨_, fun _ => rfl, rfl, .inr rfl⟩
      rw [halter.1]
      cases q with
      | nil => rfl
      | cons d q =>
        rw [at?, at?, child?, child?, lookup_alterEntries entries c d hf]
        by_cases hd : d = c
        · rcases halter.2 with rfl | rfl
          · exact absurd (hd ▸ List.prefix_append [d] q) h
          · rw [if_pos hd, hd]
            cases entries.lookup c with
            | none => rfl
            | some k => exact ih q k fun hp => h (hd ▸ List.cons_prefix_cons.mpr ⟨rfl, hp⟩)
        · rw [if_neg hd]
    | file _ => cases place <;> rfl
    | link _ => cases place <;> rfl

end Put

/-- What is put at a place takes the place of what was put there before. -/
theorem alter_put (m m' : Node α) (place : List String) (n : Node α) :
    (n.alter (fun _ => some m) place).alter (fun _ => some m') place =
      n.alter (fun _ => some m') place := by
  induction place generalizing n with
  | nil => rfl
  | cons c place ih =>
    cases n with
    | file _ => cases place <;> rfl
    | link _ => cases place <;> rfl
    | folder entries =>
      cases place with
      | nil => exact congrArg folder (alterEntries_alterEntries entries c (fun _ => rfl) _)
      | cons c' place =>
        refine congrArg folder ((alterEntries_alterEntries entries c (fun _ => rfl) _).trans ?_)
        refine congrArg (alterEntries entries c) (funext fun k => ?_)
        rw [Option.map_map]
        exact congrArg (k.map ·) (funext ih)
end Node

/-! ## Following a path again -/

/-- The place of what a path leads to, or of what it could lead to. -/
def Spot.place : Spot → List String
  | present place => place
  | absent folder name => folder ++ [name]

section Follow

variable {root root' m : Node α} {place : List String} {last : Bool}

/-- A disk with something new that is no link, or with a file replaced by it. -/
structure WrittenAt (place : List String) (m : Node α) (root root' : Node α) : Prop where
  new : root'.at? place = some m
  notLink : ∀ target, m ≠ .link target
  free : root.at? place = none ∨ ∃ old, root.at? place = some (.file old)
  others : ∀ q, ¬ place <+: q → (root'.at? q).map Node.shape = (root.at? q).map Node.shape

namespace WrittenAt

/-- Nothing but the file itself stands at its place or below. -/
theorem not_prefix (h : WrittenAt place m root root') {q : List String} {n : Node α}
    (hq : root.at? q = some n) (hn : ∀ old, n ≠ .file old) : ¬ place <+: q := by
  rintro ⟨rest, rfl⟩
  rw [Node.at?_append] at hq
  rcases h.free with hfree | ⟨old, hfree⟩
  · rw [hfree] at hq
    cases hq
  · rw [hfree] at hq
    cases rest with
    | nil => exact hn old (Option.some.inj hq).symm
    | cons c rest => cases hq

theorem folder (h : WrittenAt place m root root') {q : List String}
    {es : List (String × Node α)} (hq : root.at? q = some (.folder es)) :
    ∃ es', root'.at? q = some (.folder es') := by
  have hshape := h.others q (h.not_prefix hq fun _ heq => nomatch heq)
  rw [hq] at hshape
  obtain ⟨n, hn, hfolder⟩ := Option.map_eq_some_iff.mp hshape
  cases n with
  | folder es' => exact ⟨es', hn⟩
  | file _ => cases hfolder
  | link _ => cases hfolder

theorem link (h : WrittenAt place m root root') {q : List String} {target : String}
    (hq : root.at? q = some (.link target)) : root'.at? q = some (.link target) := by
  have hshape := h.others q (h.not_prefix hq fun _ heq => nomatch heq)
  rw [hq] at hshape
  obtain ⟨n, hn, hlink⟩ := Option.map_eq_some_iff.mp hshape
  cases n with
  | link _ =>
    cases hlink
    exact hn
  | folder _ => cases hlink
  | file _ => cases hlink

/-- Where no link stood, none stands now. -/
theorem not_link (h : WrittenAt place m root root') {q : List String} {n : Node α}
    (hq : root.at? q = some n) (hn : ∀ target, n ≠ .link target) :
    ∃ n', root'.at? q = some n' ∧ ∀ target, n' ≠ .link target := by
  by_cases hprefix : place <+: q
  · obtain ⟨rest, rfl⟩ := hprefix
    rw [Node.at?_append] at hq
    rcases h.free with hfree | ⟨old, hfree⟩
    · rw [hfree] at hq
      cases hq
    · rw [hfree] at hq
      cases rest with
      | nil =>
        exact ⟨m, by rw [List.append_nil]; exact h.new, h.notLink⟩
      | cons c rest => cases hq
  · have hshape := h.others q hprefix
    rw [hq] at hshape
    obtain ⟨n', hn', heq⟩ := Option.map_eq_some_iff.mp hshape
    refine ⟨n', hn', ?_⟩
    rintro target rfl
    cases n with
    | link _ => exact hn _ rfl
    | folder _ => cases heq
    | file _ => cases heq

/-- A step from a folder turns as before, or it leads to what is new where nothing was. -/
theorem turn_cases (h : WrittenAt place m root root') (p : List String) (step : String) :
    (∀ es, root.at? p ≠ some (.folder es)) ∨
    (turn root' p step = turn root p step ∧
      (turn root p step = .missing → p ++ [step] ≠ place)) ∨
    turn root p step = .missing ∧ turn root' p step = .goesTo place ∧ p ++ [step] = place := by
  by_cases hp : ∃ es, root.at? p = some (.folder es)
  swap
  · exact .inl (not_exists.mp hp)
  obtain ⟨es, hp⟩ := hp
  obtain ⟨es', hp'⟩ := h.folder hp
  refine .inr ?_
  unfold turn
  rw [hp, hp']
  dsimp only
  by_cases hstay : (step = "" || step = ".") = true
  · rw [if_pos hstay, if_pos hstay]
    exact .inl ⟨rfl, nofun⟩
  rw [if_neg hstay, if_neg hstay]
  by_cases hup : step = ".."
  · rw [if_pos hup, if_pos hup]
    exact .inl ⟨rfl, nofun⟩
  rw [if_neg hup, if_neg hup]
  by_cases hlong : maxNameBytes < step.utf8ByteSize
  · rw [if_pos hlong, if_pos hlong]
    exact .inl ⟨rfl, nofun⟩
  rw [if_neg hlong, if_neg hlong]
  rcases hnext : root.at? (p ++ [step]) with _ | n
  · by_cases hplace : p ++ [step] = place
    · rw [hplace, h.new, Turn.ofNode_of_not_link h.notLink]
      exact .inr ⟨rfl, rfl, rfl⟩
    · have hprefix : ¬ place <+: p ++ [step] := by
        intro hprefix
        rcases List.prefix_concat_iff.mp hprefix with heq | hbelow
        · exact hplace heq.symm
        · exact h.not_prefix hp (fun _ heq => nomatch heq) hbelow
      have hshape := h.others _ hprefix
      rw [hnext, Option.map_none, Option.map_eq_none_iff] at hshape
      rw [hshape]
      exact .inl ⟨rfl, fun _ => hplace⟩
  · refine .inl ?_
    by_cases hlink : ∃ target, n = .link target
    · obtain ⟨target, rfl⟩ := hlink
      rw [h.link hnext]
      exact ⟨rfl, nofun⟩
    · have hn := not_exists.mp hlink
      obtain ⟨n', hn', hnot⟩ := h.not_link hnext hn
      rw [hn', Turn.ofNode_of_not_link hnot, Turn.ofNode_of_not_link hn]
      exact ⟨rfl, nofun⟩

/-- Steps that led to the place lead there still. -/
theorem follow (h : WrittenAt place m root root')
    {jump jump' : List String → List String → Except FileError Spot}
    (hjump : ∀ p steps spot, jump p steps = .ok spot → spot.place = place →
      jump' p steps = .ok (.present place))
    (steps : List String) (p : List String) {spot : Spot}
    (hfollow : Files.follow jump last root p steps = .ok spot) (hspot : spot.place = place) :
    Files.follow jump' last root' p steps = .ok (.present place) := by
  induction steps generalizing p with
  | nil =>
    rw [Files.follow] at hfollow ⊢
    cases hfollow
    exact congrArg (fun q => Except.ok (Spot.present q)) hspot
  | cons step rest ih =>
    rw [follow_cons] at hfollow ⊢
    rcases h.turn_cases p step with hnot | ⟨hsame, hplace⟩ | ⟨hmissing, hnew, -⟩
    · rw [turn_of_not_folder hnot] at hfollow
      cases hfollow
    · rw [hsame]
      rcases Files.turn_cases root p step with
        ⟨q, hturn⟩ | ⟨target, hturn, hlink⟩ | ⟨hturn, -⟩ | ⟨e, hturn⟩ <;> rw [hturn] at hfollow ⊢
      · exact ih q hfollow
      · dsimp only at hfollow ⊢
        split at hfollow
        · cases hfollow
          exact absurd (hspot ▸ List.prefix_refl _) (h.not_prefix hlink fun _ heq => by cases heq)
        · rename_i hend
          rw [if_neg hend]
          split at hfollow
          · cases hfollow
          · rename_i htarget
            rw [if_neg htarget]
            exact hjump _ _ _ hfollow hspot
      · dsimp only at hfollow
        split at hfollow
        · cases hfollow
          exact absurd hspot (hplace hturn)
        · cases hfollow
      · cases hfollow
    -- a name that was missing can only be the end of the path, and now it is there
    · rw [hmissing] at hfollow
      rw [hnew]
      dsimp only at hfollow ⊢
      split at hfollow
      · rename_i hrest
        obtain rfl := List.isEmpty_iff.mp hrest
        exact Files.follow.eq_1 ..
      · cases hfollow

theorem resolveSteps (h : WrittenAt place m root root') (links : Nat)
    (p steps : List String) {spot : Spot}
    (hresolve : Files.resolveSteps last root links p steps = .ok spot)
    (hspot : spot.place = place) :
    Files.resolveSteps last root' links p steps = .ok (.present place) :=
  resolveSteps_induction
    (P := fun jump jump' => ∀ p steps spot, jump p steps = .ok spot → spot.place = place →
      jump' p steps = .ok (.present place))
    (fun _ _ _ h => by cases h)
    (fun _ _ hjump p steps _ hfollow hspot => h.follow hjump steps p hfollow hspot)
    links p steps spot hresolve hspot

/-- Where no folder stood, none stands now, if a file is new. -/
theorem not_folder {content : α} (h : WrittenAt place (.file content) root root') {q : List String}
    (hq : ∀ es, root.at? q ≠ some (.folder es)) : ∀ es, root'.at? q ≠ some (.folder es) := by
  intro es hes
  by_cases hprefix : place <+: q
  · obtain ⟨rest, rfl⟩ := hprefix
    rw [Node.at?_append, h.new] at hes
    cases rest <;> cases hes
  · have hshape := h.others q hprefix
    rw [hes] at hshape
    obtain ⟨n, hn, heq⟩ := Option.map_eq_some_iff.mp hshape.symm
    cases n with
    | folder es' => exact hq es' hn
    | file _ => cases heq
    | link _ => cases heq

/-- Everywhere else the files are those that were there. -/
theorem file_iff {content : α} (h : WrittenAt place (.file content) root root') {q : List String}
    (hq : q ≠ place) (c : α) : root'.at? q = some (.file c) ↔ root.at? q = some (.file c) := by
  by_cases hprefix : place <+: q
  · obtain ⟨rest, rfl⟩ := hprefix
    obtain ⟨d, ds, rfl⟩ : ∃ d ds, rest = d :: ds :=
      List.exists_cons_of_ne_nil fun hnil => hq (by rw [hnil, List.append_nil])
    have hnone' : root'.at? (place ++ d :: ds) = none := by
      rw [Node.at?_append, h.new]
      rfl
    have hnone : root.at? (place ++ d :: ds) = none := by
      rw [Node.at?_append]
      rcases h.free with hfree | ⟨old, hfree⟩ <;> rw [hfree] <;> rfl
    rw [hnone, hnone']
  · have hshape := h.others _ hprefix
    rcases hn : root.at? q with _ | (_ | _ | _) <;>
      rcases hn' : root'.at? q with _ | (_ | _ | _) <;>
      rw [hn, hn'] at hshape <;> simp [Node.shape] at hshape ⊢
    rw [hshape]

end WrittenAt

/-- Where a path leads before and after a file is written: to the same place, or to the new
file, or no longer through the place where the file is now. -/
inductive Reroute (place : List String) :
    Except FileError Spot → Except FileError Spot → Prop where
  | same (r : Except FileError Spot) : Reroute place r r
  | new {folder : List String} {name : String} (h : folder ++ [name] = place) :
    Reroute place (.ok (.absent folder name)) (.ok (.present place))
  | through : Reroute place (.error .notFound) (.error .notFolder)

theorem WrittenAt.reroute {content : α} (h : WrittenAt place (.file content) root root')
    {jump jump' : List String → List String → Except FileError Spot}
    (hjump : ∀ p steps, Reroute place (jump p steps) (jump' p steps)) (steps p : List String) :
    Reroute place (Files.follow jump last root p steps)
      (Files.follow jump' last root' p steps) := by
  induction steps generalizing p with
  | nil =>
    rw [Files.follow, Files.follow]
    exact .same _
  | cons step rest ih =>
    rw [follow_cons, follow_cons]
    rcases h.turn_cases p step with hnot | ⟨hsame, -⟩ | ⟨hmissing, hnew, hplace⟩
    · rw [turn_of_not_folder hnot, turn_of_not_folder (h.not_folder hnot)]
      exact .same _
    · rw [hsame]
      rcases Files.turn_cases root p step with
        ⟨q, hturn⟩ | ⟨target, hturn, -⟩ | ⟨hturn, -⟩ | ⟨e, hturn⟩ <;> rw [hturn]
      · exact ih q
      · dsimp only
        split
        · exact .same _
        · split
          · exact .same _
          · exact hjump _ _
      · exact .same _
      · exact .same _
    · rw [hmissing, hnew]
      cases rest with
      | nil =>
        dsimp only
        rw [Files.follow]
        exact .new hplace
      | cons c cs =>
        have hthrough : Files.follow jump' last root' place (c :: cs) = .error .notFolder := by
          rw [Files.follow, h.new]
        dsimp only
        rw [hthrough]
        exact .through

theorem WrittenAt.reroute_resolveSteps {content : α}
    (h : WrittenAt place (.file content) root root') (links : Nat) (p steps : List String) :
    Reroute place (Files.resolveSteps last root links p steps)
      (Files.resolveSteps last root' links p steps) :=
  resolveSteps_induction
    (P := fun jump jump' => ∀ p steps, Reroute place (jump p steps) (jump' p steps))
    (fun _ _ => .same _) (fun _ _ hjump p steps => h.reroute hjump steps p) links p steps

end Follow

/-! ## Where a path ends -/

section Ends

variable {root : Node α} {last : Bool}

/-- A path that ends at a new name ends in a folder. -/
theorem follow_absent {jump : List String → List String → Except FileError Spot}
    {folder : List String} {name : String}
    (hjump : ∀ p steps, jump p steps = .ok (.absent folder name) →
      (∃ es, root.at? folder = some (.folder es)) ∧ root.at? (folder ++ [name]) = none)
    (steps p : List String)
    (h : follow jump last root p steps = .ok (.absent folder name)) :
    (∃ es, root.at? folder = some (.folder es)) ∧ root.at? (folder ++ [name]) = none := by
  induction steps generalizing p with
  | nil =>
    rw [follow] at h
    cases h
  | cons step rest ih =>
    rw [follow_cons] at h
    rcases turn_cases root p step with
      ⟨q, hturn⟩ | ⟨target, hturn, -⟩ | ⟨hturn, hthere⟩ | ⟨e, hturn⟩ <;> rw [hturn] at h
    · exact ih q h
    · dsimp only at h
      split at h
      · cases h
      · split at h
        · cases h
        · exact hjump _ _ h
    · dsimp only at h
      split at h
      · cases h
        exact hthere
      · cases h
    · cases h

theorem resolveSteps_absent {folder : List String} {name : String} (links : Nat)
    (p steps : List String) (h : resolveSteps last root links p steps = .ok (.absent folder name)) :
    (∃ es, root.at? folder = some (.folder es)) ∧ root.at? (folder ++ [name]) = none :=
  @resolveSteps_induction α root root last last
    (fun jump _ => ∀ p steps, jump p steps = .ok (.absent folder name) →
      (∃ es, root.at? folder = some (.folder es)) ∧ root.at? (folder ++ [name]) = none)
    (fun _ _ h => by cases h) (fun _ _ hjump p steps h => follow_absent hjump steps p h)
    links p steps h

/-- What stands at a place stands in a folder. -/
theorem Node.folder_of_at? {front : List String} {c : String} {n : Node α}
    (h : root.at? (front ++ [c]) = some n) : ∃ es, root.at? front = some (.folder es) := by
  rw [Node.at?_append, Option.bind_eq_some_iff] at h
  obtain ⟨m, hm, hc⟩ := h
  cases m with
  | folder es => exact ⟨es, hm⟩
  | file _ => cases hc
  | link _ => cases hc

end Ends

namespace Disk

variable {t t' : Disk α} {s : String} {content : α}

theorem spotOf_eq_ok {last : Bool} {spot : Spot} (h : t.spotOf s last = .ok spot) :
    PathText s ∧
      resolveSteps last t.root maxLinks (if s.startsWith "/" then [] else t.cwd) (stepsOf s) =
        .ok spot := by
  by_cases htext : PathText s
  · rw [spotOf_of_pathText htext] at h
    exact ⟨htext, h⟩
  · obtain ⟨e, he⟩ := spotOf_of_not_pathText (α := α) htext
    rw [he] at h
    cases h

/-- What is put at a free place is there, and all else stays. -/
theorem writtenAt_put {place : List String} {m : Node α} (hm : ∀ target, m ≠ .link target)
    (hfree : t.root.at? place = none ∨ ∃ old, t.root.at? place = some (.file old))
    (hfolder : ∀ front c, place = front ++ [c] → ∃ es, t.root.at? front = some (.folder es)) :
    WrittenAt place m t.root (t.put place m).root :=
  ⟨Node.at?_put _ _ t.root hfolder, hm, hfree, fun q hq => Node.shape_put _ _ q t.root hq⟩

theorem put_put (t : Disk α) (place : List String) (m m' : Node α) :
    (t.put place m).put place m' = t.put place m' :=
  congrArg (fun root => { t with root }) (Node.alter_put m m' place t.root)

/-- A path that led to the place of something new leads there still. -/
theorem spotOf_of_writtenAt {last : Bool} {spot : Spot} {place : List String} {m : Node α}
    (hspot : t.spotOf s last = .ok spot) (hplace : spot.place = place)
    (h : WrittenAt place m t.root t'.root) (hcwd : t'.cwd = t.cwd) :
    t'.spotOf s last = .ok (.present place) := by
  obtain ⟨htext, hsteps⟩ := spotOf_eq_ok hspot
  rw [spotOf_of_pathText htext, hcwd]
  exact h.resolveSteps maxLinks _ _ hsteps hplace

/-- What was put where a path leads is found there. -/
theorem find_of_writtenAt {last : Bool} {spot : Spot} {place : List String} {m : Node α}
    (hspot : t.spotOf s last = .ok spot) (hplace : spot.place = place)
    (h : WrittenAt place m t.root t'.root) (hcwd : t'.cwd = t.cwd) :
    t'.find s last = .ok m := by
  rw [find, spotOf_of_writtenAt hspot hplace h hcwd]
  dsimp only
  rw [h.new]

/-- What a write does is put a file where its path leads; that it fails does not depend on what
is written. -/
theorem write_cases (t : Disk α) (s : String) :
    (∃ e, ∀ content, t.write s content = .error e) ∨
      ∃ spot, t.spotOf s = .ok spot ∧ ∀ content,
        t.write s content = .ok (t.put spot.place (.file content)) ∧
          WrittenAt spot.place (.file content) t.root (t.put spot.place (.file content)).root := by
  unfold write
  split
  · dsimp only
    repeat' split
    all_goals exact .inl ⟨_, fun _ => rfl⟩
  · split
    · exact .inl ⟨_, fun _ => rfl⟩
    · rename_i folder name hspot
      obtain ⟨hfolder, hfree⟩ := resolveSteps_absent maxLinks _ _ (spotOf_eq_ok hspot).2
      refine .inr ⟨_, hspot, fun content => ⟨rfl,
        writtenAt_put (fun _ heq => by cases heq) (.inl hfree) ?_⟩⟩
      intro front c hplace
      obtain ⟨rfl, -⟩ := List.append_inj' hplace rfl
      exact hfolder
    · rename_i place hspot
      split
      · rename_i old hold
        refine .inr ⟨_, hspot, fun content => ⟨rfl,
          writtenAt_put (fun _ heq => by cases heq) (.inr ⟨old, hold⟩) ?_⟩⟩
        intro front c hplace
        obtain rfl : place = front ++ [c] := hplace
        exact Node.folder_of_at? hold
      · exact .inl ⟨_, fun _ => rfl⟩

theorem write_eq_error {e : FileError} (h : t.write s content = .error e) (content' : α) :
    t.write s content' = .error e := by
  obtain ⟨e', herror⟩ | ⟨spot, -, hwritten⟩ := t.write_cases s
  · rw [herror] at h ⊢
    exact h
  · rw [(hwritten content).1] at h
    cases h

/-- A file is written where its path leads. -/
theorem exists_writtenAt (h : t.write s content = .ok t') :
    ∃ spot, t.spotOf s = .ok spot ∧ WrittenAt spot.place (.file content) t.root t'.root ∧
      t'.cwd = t.cwd := by
  obtain ⟨e, herror⟩ | ⟨spot, hspot, hwritten⟩ := t.write_cases s
  · rw [herror] at h
    cases h
  · rw [(hwritten content).1] at h
    cases h
    exact ⟨spot, hspot, (hwritten content).2, rfl⟩

/-- A file that was written is found where it was written. -/
theorem find_write (h : t.write s content = .ok t') : t'.find s = .ok (.file content) := by
  obtain ⟨spot, hspot, hwritten, hcwd⟩ := exists_writtenAt h
  exact find_of_writtenAt hspot rfl hwritten hcwd

/-- A path whose end stands nowhere leads to nothing. -/
theorem find_eq_of_spotOf {last : Bool} {spot : Spot} (h : t.spotOf s last = .ok spot) :
    t.find s last = match t.root.at? spot.place with
      | some n => .ok n
      | none => .error .notFound := by
  rw [find, h]
  cases spot with
  | present place => rfl
  | absent folder name =>
    obtain ⟨-, hfree⟩ := resolveSteps_absent maxLinks _ _ (spotOf_eq_ok h).2
    dsimp only [Spot.place]
    rw [hfree]

theorem find_eq_ok_iff {last : Bool} {spot : Spot} (h : t.spotOf s last = .ok spot) {n : Node α} :
    t.find s last = .ok n ↔ t.root.at? spot.place = some n := by
  rw [find_eq_of_spotOf h]
  cases t.root.at? spot.place with
  | none => exact ⟨nofun, nofun⟩
  | some m => exact ⟨fun heq => congrArg some (Except.ok.inj heq),
      fun heq => congrArg Except.ok (Option.some.inj heq)⟩

theorem find_eq_nameTooLong_iff {last : Bool} :
    t.find s last = .error .nameTooLong ↔ t.spotOf s last = .error .nameTooLong := by
  unfold find
  split
  · rename_i e he
    rw [he]
    constructor <;> intro h <;> cases h <;> rfl
  · rename_i he
    rw [he]
    constructor <;> intro h <;> cases h
  · rename_i place hplace
    rw [hplace]
    constructor <;> intro h
    · split at h <;> cases h
    · cases h

/-- After a file was written, every other path leads to the file that it led to, if any, and is too
long if it was; a path that leads to the same place led to what stood there. -/
theorem find_write_other (h : t.write s content = .ok t') (s' : String) :
    t'.find s' = .ok (.file content) ∧ t.find s' = t.find s ∨
      (t'.find s' = .error .nameTooLong ↔ t.find s' = .error .nameTooLong) ∧
        ∀ c, t'.find s' = .ok (.file c) ↔ t.find s' = .ok (.file c) := by
  obtain ⟨spot, hspot, hwritten, hcwd⟩ := exists_writtenAt h
  have hroute : Reroute spot.place (t.spotOf s') (t'.spotOf s') := by
    by_cases htext : PathText s'
    · rw [spotOf_of_pathText htext, spotOf_of_pathText htext, hcwd]
      exact hwritten.reroute_resolveSteps maxLinks _ _
    · obtain ⟨e, he⟩ := spotOf_of_not_pathText (α := α) htext
      rw [he, he]
      exact .same _
  generalize hbefore : t.spotOf s' = r at hroute
  generalize hafter : t'.spotOf s' = r' at hroute
  cases hroute with
  | same r =>
    have hlong : t'.find s' = .error .nameTooLong ↔ t.find s' = .error .nameTooLong := by
      rw [find_eq_nameTooLong_iff, find_eq_nameTooLong_iff, hbefore, hafter]
    rcases r with e | spot'
    · refine .inr ⟨hlong, fun c => ?_⟩
      rw [find, find, hbefore, hafter]
    · by_cases hplace : spot'.place = spot.place
      · refine .inl ⟨(find_eq_ok_iff hafter).mpr (hplace ▸ hwritten.new), ?_⟩
        rw [find_eq_of_spotOf hbefore, find_eq_of_spotOf hspot, hplace]
      · refine .inr ⟨hlong, fun c => ?_⟩
        rw [find_eq_ok_iff hbefore, find_eq_ok_iff hafter, hwritten.file_iff hplace]
  | new hplace =>
    refine .inl ⟨(find_eq_ok_iff hafter).mpr hwritten.new, ?_⟩
    rw [find_eq_of_spotOf hbefore, find_eq_of_spotOf hspot,
      show (Spot.absent _ _).place = spot.place from hplace]
  | through =>
    refine .inr ⟨?_, fun c => ?_⟩
    · rw [find_eq_nameTooLong_iff, find_eq_nameTooLong_iff, hbefore, hafter]
      simp
    · rw [find, find, hbefore, hafter]
      simp

/-- A file that is found can be written. -/
theorem write_of_find {old : α} (h : t.find s = .ok (.file old))
    (hend : ¬ (s ≠ "" && s.endsWith "/") = true) (content : α) :
    ∃ t', t.write s content = .ok t' := by
  unfold write
  rw [if_neg hend]
  unfold find at h
  split at h
  · cases h
  · cases h
  · rename_i place hspot
    split at h
    · rename_i n hn
      cases h
      rw [hn]
      exact ⟨_, rfl⟩
    · cases h

/-- A file that was written can be written again. -/
theorem write_again (h : t.write s content = .ok t') (content' : α) :
    ∃ t'', t'.write s content' = .ok t'' := by
  refine write_of_find (find_write h) (fun hend => ?_) content'
  unfold write at h
  rw [if_pos hend] at h
  dsimp only at h
  repeat' split at h
  all_goals cases h

/-- A file that is written again is as if it had been written once. -/
theorem write_write (h : t.write s content = .ok t') (content' : α) :
    t'.write s content' = t.write s content' := by
  obtain ⟨e, herror⟩ | ⟨spot, hspot, hwritten⟩ := t.write_cases s
  · rw [herror] at h
    cases h
  · obtain ⟨hwrite, hwrittenAt⟩ := hwritten content
    obtain rfl : t.put spot.place (.file content) = t' := Except.ok.inj (hwrite.symm.trans h)
    have hspot' := spotOf_of_writtenAt hspot rfl hwrittenAt rfl
    obtain ⟨e, herror⟩ | ⟨spot', hspot'', hagain⟩ :=
      (t.put spot.place (.file content)).write_cases s
    · obtain ⟨t'', ht''⟩ := write_again h content'
      rw [herror] at ht''
      cases ht''
    · obtain rfl : Spot.present spot.place = spot' := Except.ok.inj (hspot'.symm.trans hspot'')
      rw [(hagain content').1, (hwritten content').1]
      exact congrArg Except.ok (put_put t spot.place _ _)

/-- Where a name leads in an empty folder. -/
theorem spotOf_first : ({} : Disk α).spotOf (Path.text ⟨.relative, ["m"]⟩) =
    .ok (.absent [] "m") := by
  have htext : Path.text ⟨.relative, ["m"]⟩ = "m" := by cbv
  have hsteps : stepsOf "m" = ["m"] := by cbv
  have hrelative : "m".startsWith "/" = false := by cbv
  have hsize : ¬ maxNameBytes < "m".utf8ByteSize := by decide
  rw [htext, spotOf_of_pathText (by decide), hsteps, hrelative, maxLinks, resolveSteps, follow]
  simp [Node.at?, Node.child?, hsize]

/-- A file that is written into an empty folder. -/
theorem write_first (content : α) :
    ({} : Disk α).write (Path.text ⟨.relative, ["m"]⟩) content =
      .ok { root := .folder [("m", .file content)] } := by
  have hfile : (Path.text ⟨.relative, ["m"]⟩).endsWith "/" = false := by cbv
  rw [Disk.write, hfile, spotOf_first]
  rfl

end Disk

end SourceShelf.Files
