import Mathlib
import SourceShelf.Proofs.Files.Below
import SourceShelf.Proofs.Files.Written

/-!
# How many links a path goes over

`Leads` follows a path without a limit and counts the links; `resolveSteps` finds what it leads
to when the limit is large enough (`resolveSteps_eq_ok_iff`).  A path with names behind it goes
over the links of the path and those of the names (`leads_append_iff`), so that what stands below
a folder is found when both together are not too many (`Disk.LeadsTo.spotOf_iff`).

* `Leads.deterministic`: a path leads to one place, over one number of links.
* `Leads.not_link`: steps that are followed to their end lead to no link.
* `leads_entry`, `Leads.pos_of_link`, `leads_names`: names below a folder.
* `Disk.find_below`: names that go over no link lead to what they lead to in the folder.
-/

namespace SourceShelf.Files

variable {α : Type} {root : Node α} {last : Bool}

/-- The folder in which the steps of a path start. -/
def startOf (s : String) (place : List String) : List String :=
  if s.startsWith "/" then [] else place

/-- Where some steps from a place lead, and over how many links.  With `last`, a link at the end
is followed as well. -/
inductive Leads (root : Node α) (last : Bool) :
    List String → List String → Nat → Spot → Prop where
  | stays (place : List String) : Leads root last place [] 0 (.present place)
  | goes {place q : List String} {step : String} {rest : List String} {n : Nat} {r : Spot}
    (hturn : turn root place step = .goesTo q) (hrest : Leads root last q rest n r) :
    Leads root last place (step :: rest) n r
  | jumps {place : List String} {step target : String} {rest : List String} {n : Nat} {r : Spot}
    (hturn : turn root place step = .link target) (hfollowed : rest = [] → last = true)
    (htarget : target ≠ "")
    (hrest : Leads root last (startOf target place) (stepsOf target ++ rest) n r) :
    Leads root last place (step :: rest) (n + 1) r
  | stopsAtLink {place : List String} {step target : String}
    (hturn : turn root place step = .link target) (hlast : last = false) :
    Leads root last place [step] 0 (.present (place ++ [step]))
  | misses {place : List String} {step : String} (hturn : turn root place step = .missing) :
    Leads root last place [step] 0 (.absent place step)

/-! ## The limit -/

section Limit

variable {place q rest : List String} {step target : String} {r : Spot} {links : Nat}

theorem resolveSteps_nil (links : Nat) (place : List String) :
    resolveSteps last root links place [] = .ok (.present place) := by
  cases links <;> exact follow.eq_1 ..

theorem resolveSteps_of_goesTo (hturn : turn root place step = .goesTo q) (links : Nat)
    (rest : List String) :
    resolveSteps last root links place (step :: rest) = resolveSteps last root links q rest := by
  cases links <;> rw [resolveSteps, follow_cons, hturn]

theorem resolveSteps_of_missing (hturn : turn root place step = .missing) (links : Nat)
    (rest : List String) :
    resolveSteps last root links place (step :: rest) =
      if rest.isEmpty then .ok (.absent place step) else .error .notFound := by
  cases links <;> rw [resolveSteps, follow_cons, hturn]

theorem resolveSteps_of_stops {e : FileError} (hturn : turn root place step = .stops e)
    (links : Nat)
    (rest : List String) :
    resolveSteps last root links place (step :: rest) = .error e := by
  cases links <;> rw [resolveSteps, follow_cons, hturn]

/-- A link at the end that is not to be followed is what the path leads to. -/
theorem resolveSteps_of_last_link (hturn : turn root place step = .link target) (links : Nat) :
    resolveSteps false root links place [step] = .ok (.present (place ++ [step])) := by
  cases links <;> rw [resolveSteps, follow_cons, hturn] <;> rfl

theorem not_end (hfollowed : rest = [] → last = true) : ¬ (rest.isEmpty && !last) = true := by
  rw [Bool.and_eq_true, List.isEmpty_iff, Bool.not_eq_true']
  rintro ⟨hrest, hlast⟩
  rw [hfollowed hrest] at hlast
  cases hlast

/-- A link is followed if the limit allows one more. -/
theorem resolveSteps_succ_of_link (hturn : turn root place step = .link target)
    (hfollowed : rest = [] → last = true) (htarget : target ≠ "") :
    resolveSteps last root (links + 1) place (step :: rest) =
      resolveSteps last root links (startOf target place) (stepsOf target ++ rest) := by
  rw [resolveSteps, follow_cons, hturn]
  dsimp only
  rw [if_neg (not_end hfollowed), if_neg htarget]
  rfl

theorem resolveSteps_zero_of_link (hturn : turn root place step = .link target)
    (hfollowed : rest = [] → last = true) (htarget : target ≠ "") :
    resolveSteps last root 0 place (step :: rest) = .error .tooManyLinks := by
  rw [resolveSteps, follow_cons, hturn]
  dsimp only
  rw [if_neg (not_end hfollowed), if_neg htarget]

/-- An empty link leads to nothing. -/
theorem resolveSteps_of_empty_link (hturn : turn root place step = .link "")
    (hfollowed : rest = [] → last = true) :
    resolveSteps last root links place (step :: rest) = .error .notFound := by
  cases links <;> rw [resolveSteps, follow_cons, hturn] <;> dsimp only <;>
    rw [if_neg (not_end hfollowed), if_pos rfl]

/-- Steps are followed to their end when they go over no more links than are allowed. -/
theorem resolveSteps_eq_ok_iff {steps : List String} :
    resolveSteps last root links place steps = .ok r ↔
      ∃ n ≤ links, Leads root last place steps n r := by
  constructor
  · intro h
    -- the outer induction is on the limit, since the steps of a link stand in place of its name
    induction links using Nat.strong_induction_on generalizing place steps with
    | h links ihlinks =>
      induction steps generalizing place with
      | nil =>
        rw [resolveSteps_nil] at h
        cases h
        exact ⟨0, Nat.zero_le _, .stays place⟩
      | cons step rest ih =>
        obtain ⟨q, hturn⟩ | ⟨target, hturn, -⟩ | ⟨hturn, -⟩ | ⟨e, hturn⟩ :=
          turn_cases root place step
        · rw [resolveSteps_of_goesTo hturn] at h
          obtain ⟨n, hn, hleads⟩ := ih h
          exact ⟨n, hn, .goes hturn hleads⟩
        · by_cases hfollowed : rest = [] → last = true
          · by_cases htarget : target = ""
            · subst htarget
              rw [resolveSteps_of_empty_link hturn hfollowed] at h
              cases h
            · cases links with
              | zero =>
                rw [resolveSteps_zero_of_link hturn hfollowed htarget] at h
                cases h
              | succ links =>
                rw [resolveSteps_succ_of_link hturn hfollowed htarget] at h
                obtain ⟨n, hn, hleads⟩ := ihlinks links (Nat.lt_succ_self _) h
                exact ⟨n + 1, Nat.succ_le_succ hn, .jumps hturn hfollowed htarget hleads⟩
          · rw [Classical.not_imp, Bool.not_eq_true] at hfollowed
            obtain ⟨rfl, rfl⟩ := hfollowed
            rw [resolveSteps_of_last_link hturn] at h
            cases h
            exact ⟨0, Nat.zero_le _, .stopsAtLink hturn rfl⟩
        · rw [resolveSteps_of_missing hturn] at h
          split at h
          · rename_i hrest
            obtain rfl := List.isEmpty_iff.mp hrest
            cases h
            exact ⟨0, Nat.zero_le _, .misses hturn⟩
          · cases h
        · rw [resolveSteps_of_stops hturn] at h
          cases h
  · rintro ⟨n, hn, h⟩
    induction h generalizing links with
    | stays place => exact resolveSteps_nil links place
    | goes hturn _ ih => rw [resolveSteps_of_goesTo hturn, ih hn]
    | jumps hturn hfollowed htarget _ ih =>
      obtain ⟨links, rfl⟩ := Nat.exists_eq_add_one_of_ne_zero (Nat.ne_zero_of_lt hn)
      rw [resolveSteps_succ_of_link hturn hfollowed htarget, ih (Nat.le_of_succ_le_succ hn)]
    | stopsAtLink hturn hlast =>
      subst hlast
      exact resolveSteps_of_last_link hturn links
    | misses hturn => exact resolveSteps_of_missing hturn links []

end Limit

/-! ## Paths with more behind them -/

section Leads

variable {place q steps xs ys : List String} {n m : Nat} {r r' : Spot}

/-- A path leads to one place, over one number of links. -/
theorem Leads.deterministic (h : Leads root last place steps n r)
    (h' : Leads root last place steps m r') : n = m ∧ r = r' := by
  induction h generalizing m r' with
  | stays place =>
    cases h'
    exact ⟨rfl, rfl⟩
  | goes hturn _ ih =>
    cases h' with
    | goes hturn' hrest' =>
      cases hturn.symm.trans hturn'
      exact ih hrest'
    | jumps hturn' => cases hturn.symm.trans hturn'
    | stopsAtLink hturn' => cases hturn.symm.trans hturn'
    | misses hturn' => cases hturn.symm.trans hturn'
  | jumps hturn hfollowed _ _ ih =>
    cases h' with
    | goes hturn' => cases hturn.symm.trans hturn'
    | jumps hturn' _ _ hrest' =>
      cases hturn.symm.trans hturn'
      obtain ⟨rfl, rfl⟩ := ih hrest'
      exact ⟨rfl, rfl⟩
    | stopsAtLink _ hlast => cases (hfollowed rfl).symm.trans hlast
    | misses hturn' => cases hturn.symm.trans hturn'
  | stopsAtLink hturn hlast =>
    cases h' with
    | goes hturn' => cases hturn.symm.trans hturn'
    | jumps _ hfollowed => cases (hfollowed rfl).symm.trans hlast
    | stopsAtLink _ _ => exact ⟨rfl, rfl⟩
    | misses hturn' => cases hturn.symm.trans hturn'
  | misses hturn =>
    cases h' with
    | goes hturn' => cases hturn.symm.trans hturn'
    | jumps hturn' => cases hturn.symm.trans hturn'
    | stopsAtLink hturn' => cases hturn.symm.trans hturn'
    | misses _ => exact ⟨rfl, rfl⟩

/-- Steps with more behind them are followed, and then the others from where they led. -/
theorem leads_append_iff (hne : ys ≠ []) :
    Leads root last place (xs ++ ys) n r ↔
      ∃ k m q, n = k + m ∧ Leads root true place xs k (.present q) ∧ Leads root last q ys m r := by
  constructor
  · intro h
    generalize hsteps : xs ++ ys = steps at h
    induction h generalizing xs with
    | stays place => exact absurd (List.append_eq_nil_iff.mp hsteps).2 hne
    | @goes place q step rest n r hturn hrest ih =>
      cases xs with
      | nil =>
        obtain rfl : ys = step :: rest := hsteps
        exact ⟨0, n, place, (Nat.zero_add n).symm, .stays place, .goes hturn hrest⟩
      | cons x xs =>
        obtain ⟨rfl, rfl⟩ := List.cons.inj hsteps
        obtain ⟨k, m, q', hn, hfront, hback⟩ := ih rfl
        exact ⟨k, m, q', hn, .goes hturn hfront, hback⟩
    | @jumps place step target rest n r hturn hfollowed htarget hrest ih =>
      cases xs with
      | nil =>
        obtain rfl : ys = step :: rest := hsteps
        exact ⟨0, n + 1, place, (Nat.zero_add _).symm, .stays place,
          .jumps hturn hfollowed htarget hrest⟩
      | cons x xs =>
        obtain ⟨rfl, rfl⟩ := List.cons.inj hsteps
        obtain ⟨k, m, q', hn, hfront, hback⟩ := ih (List.append_assoc _ xs ys)
        exact ⟨k + 1, m, q', by omega, .jumps hturn (fun _ => rfl) htarget hfront, hback⟩
    | @stopsAtLink place step target hturn hlast =>
      cases xs with
      | nil =>
        obtain rfl : ys = [step] := hsteps
        exact ⟨0, 0, place, rfl, .stays place, .stopsAtLink hturn hlast⟩
      | cons x xs => exact absurd (List.append_eq_nil_iff.mp (List.cons.inj hsteps).2).2 hne
    | @misses place step hturn =>
      cases xs with
      | nil =>
        obtain rfl : ys = [step] := hsteps
        exact ⟨0, 0, place, rfl, .stays place, .misses hturn⟩
      | cons x xs => exact absurd (List.append_eq_nil_iff.mp (List.cons.inj hsteps).2).2 hne
  · rintro ⟨k, m, q, rfl, hfront, hback⟩
    generalize hspot : Spot.present q = spot at hfront
    induction hfront with
    | stays place =>
      cases hspot
      rw [Nat.zero_add]
      exact hback
    | goes hturn _ ih => exact .goes hturn (ih hspot)
    | jumps hturn _ htarget _ ih =>
      rw [Nat.add_right_comm]
      have hrest := ih hspot
      rw [List.append_assoc] at hrest
      exact .jumps hturn (fun hnil => absurd (List.append_eq_nil_iff.mp hnil).2 hne) htarget hrest
    | stopsAtLink _ hlast => cases hlast
    | misses _ => cases hspot

/-- Steps that are followed to their end may have nothing behind them. -/
theorem leads_append_present_iff :
    Leads root true place (xs ++ ys) n (.present q) ↔
      ∃ k m p, n = k + m ∧ Leads root true place xs k (.present p) ∧
        Leads root true p ys m (.present q) := by
  by_cases hne : ys = []
  · subst hne
    rw [List.append_nil]
    constructor
    · exact fun h => ⟨n, 0, q, rfl, h, .stays q⟩
    · rintro ⟨k, m, p, rfl, hfront, hback⟩
      cases hback
      exact hfront
  · exact leads_append_iff hne

/-- Only a folder has anything behind it. -/
theorem Leads.folder_of_cons {step : String} (h : Leads root last place (step :: steps) n r) :
    ∃ es, root.at? place = some (.folder es) := by
  by_contra hnot
  have hturn : turn root place step = .stops .notFolder := turn_of_not_folder (not_exists.mp hnot)
  cases h with
  | goes hturn' => cases hturn.symm.trans hturn'
  | jumps hturn' => cases hturn.symm.trans hturn'
  | stopsAtLink hturn' => cases hturn.symm.trans hturn'
  | misses hturn' => cases hturn.symm.trans hturn'

theorem turn_idle {es : List (String × Node α)} {step : String} (hstep : Idle step)
    (hplace : root.at? place = some (.folder es)) : turn root place step = .goesTo place := by
  rw [turn, hplace]
  exact if_pos (by simpa [Idle] using hstep)

/-- Steps that stay lead nowhere else. -/
theorem Leads.of_idle {idle : List String} (hidle : ∀ s ∈ idle, Idle s)
    (h : Leads root last place idle n r) : n = 0 ∧ r = .present place := by
  induction idle with
  | nil =>
    cases h
    exact ⟨rfl, rfl⟩
  | cons step idle ih =>
    obtain ⟨es, hplace⟩ := h.folder_of_cons
    have hturn := turn_idle (hidle step List.mem_cons_self) hplace
    cases h with
    | goes hturn' hrest =>
      cases hturn.symm.trans hturn'
      exact ih (fun s hs => hidle s (List.mem_cons_of_mem _ hs)) hrest
    | jumps hturn' => cases hturn.symm.trans hturn'
    | stopsAtLink hturn' => cases hturn.symm.trans hturn'
    | misses hturn' => cases hturn.symm.trans hturn'

theorem Leads.front_of_idle {idle : List String} (hidle : ∀ s ∈ idle, Idle s)
    (h : Leads root true place (steps ++ idle) n (.present q)) :
    Leads root true place steps n (.present q) := by
  obtain ⟨k, m, q', rfl, hfront, hback⟩ := leads_append_present_iff.mp h
  obtain ⟨rfl, hspot⟩ := hback.of_idle hidle
  cases hspot
  exact hfront

/-! ## What is led to -/

theorem goesTo_not_link {step : String} (h : turn root place step = .goesTo q) (target : String) :
    root.at? q ≠ some (.link target) := by
  unfold turn at h
  split at h
  case h_2 => cases h
  case h_1 es hplace =>
    by_cases hstay : (step = "" || step = ".") = true
    · rw [if_pos hstay] at h
      cases h
      rw [hplace]
      exact fun heq => by cases heq
    rw [if_neg hstay] at h
    by_cases hup : step = ".."
    · rw [if_pos hup] at h
      cases h
      cases hlast : place.getLast? with
      | none =>
        rw [List.getLast?_eq_none_iff.mp hlast] at hplace ⊢
        rw [List.dropLast_nil, hplace]
        exact fun heq => by cases heq
      | some c =>
        rw [← List.dropLast_append_getLast? c hlast] at hplace
        obtain ⟨es', hfolder⟩ := Node.folder_of_at? hplace
        rw [hfolder]
        exact fun heq => by cases heq
    rw [if_neg hup] at h
    by_cases hlong : maxNameBytes < step.utf8ByteSize
    · rw [if_pos hlong] at h
      cases h
    rw [if_neg hlong] at h
    rcases hnext : root.at? (place ++ [step]) with _ | (_ | _ | _) <;>
      rw [hnext] at h <;> cases h <;> rw [hnext] <;> exact fun heq => by cases heq

theorem stepsOf_ne_nil (s : String) : stepsOf s ≠ [] := by
  rw [stepsOf_eq, ne_eq, List.map_eq_nil_iff]
  exact List.splitOn_ne_nil _ _

/-- Steps that are followed to their end lead to no link. -/
theorem Leads.not_link (h : Leads root true place steps n r) (hne : steps ≠ [])
    (hspot : r = .present q) (target : String) : root.at? q ≠ some (.link target) := by
  induction h with
  | stays place => exact absurd rfl hne
  | @goes place p step rest n r hturn hrest ih =>
    cases rest with
    | nil =>
      cases hrest
      cases hspot
      exact goesTo_not_link hturn target
    | cons step' rest => exact ih (List.cons_ne_nil _ _) hspot
  | @jumps place step aim rest n r hturn hfollowed htarget hrest ih =>
    exact ih (fun hnil => stepsOf_ne_nil aim (List.append_eq_nil_iff.mp hnil).1) hspot
  | stopsAtLink _ hlast => cases hlast
  | misses _ => cases hspot

/-! ## One name in a folder -/

section Name

variable {es : List (String × Node α)} {c : String}

theorem Node.at?_concat (hplace : root.at? place = some (.folder es)) (c : String) :
    root.at? (place ++ [c]) = es.lookup c := by
  rw [Node.at?_append, hplace]
  change (es.lookup c).bind some = _
  exact Option.bind_fun_some _

theorem turn_entry {k : Node α} (hplace : root.at? place = some (.folder es)) (hc : PathName c)
    (hk : es.lookup c = some k) (hlink : ∀ target, k ≠ .link target) :
    turn root place c = .goesTo (place ++ [c]) := by
  rw [turn_of_pathName hplace hc, Node.at?_concat hplace, hk, Turn.ofNode_of_not_link hlink]

/-- The name of a file or a folder leads to it. -/
theorem leads_entry {k : Node α} (hplace : root.at? place = some (.folder es)) (hc : PathName c)
    (hk : es.lookup c = some k) (hlink : ∀ target, k ≠ .link target) :
    Leads root last place [c] 0 (.present (place ++ [c])) :=
  .goes (turn_entry hplace hc hk hlink) (.stays _)

theorem turn_missing (hplace : root.at? place = some (.folder es)) (hc : PathName c)
    (hk : es.lookup c = none) : turn root place c = .missing := by
  rw [turn_of_pathName hplace hc, Node.at?_concat hplace, hk]
  rfl

theorem turn_link {target : String} (hplace : root.at? place = some (.folder es)) (hc : PathName c)
    (hk : es.lookup c = some (.link target)) : turn root place c = .link target := by
  rw [turn_of_pathName hplace hc, Node.at?_concat hplace, hk]
  rfl

/-- The name of a link that is followed goes over it. -/
theorem Leads.pos_of_link {target : String} (h : Leads root true place [c] n r)
    (hplace : root.at? place = some (.folder es)) (hc : PathName c)
    (hk : es.lookup c = some (.link target)) : 0 < n := by
  have hturn := turn_link hplace hc hk
  cases h with
  | goes hturn' => cases hturn.symm.trans hturn'
  | jumps => exact Nat.succ_pos _
  | stopsAtLink _ hlast => cases hlast
  | misses hturn' => cases hturn.symm.trans hturn'

/-- A name that leads to something is that of an entry. -/
theorem Leads.entry (h : Leads root last place [c] n (.present q))
    (hplace : root.at? place = some (.folder es)) (hc : PathName c) :
    ∃ k, es.lookup c = some k := by
  cases hk : es.lookup c with
  | some k => exact ⟨k, rfl⟩
  | none => cases (h.deterministic (.misses (turn_missing hplace hc hk))).2

end Name

/-- Names below a folder lead to what they lead to in the folder, over no link. -/
theorem leads_names {k l : Node α} {names : List String} (hplace : root.at? place = some k)
    (hl : k.at? names = some l) (hnames : ∀ s ∈ names, PathName s)
    (hlink : last = false ∨ ∀ target, l ≠ .link target) :
    Leads root last place names 0 (.present (place ++ names)) := by
  induction names generalizing place k with
  | nil =>
    rw [List.append_nil]
    exact .stays place
  | cons c cs ih =>
    obtain ⟨es, rfl⟩ := Node.folder_of_at?_cons hl
    obtain ⟨k, hk, hrest⟩ := Option.bind_eq_some_iff.mp hl
    have hlookup : es.lookup c = some k := hk
    have hc := hnames c List.mem_cons_self
    by_cases hentry : ∃ target, k = .link target
    · obtain ⟨target, rfl⟩ := hentry
      -- a link has nothing below it, so it is the last name
      cases cs with
      | cons d cs => cases hrest
      | nil =>
        cases hrest
        rcases hlink with rfl | hlink
        · exact .stopsAtLink (turn_link hplace hc hlookup) rfl
        · exact absurd rfl (hlink target)
    · have hgo := ih ((Node.at?_concat hplace c).trans hlookup) hrest
        fun s hs => hnames s (List.mem_cons_of_mem _ hs)
      rw [List.append_assoc, List.singleton_append] at hgo
      exact .goes (turn_entry hplace hc hlookup (not_exists.mp hentry)) hgo

end Leads

/-! ## Paths on a disk -/

namespace Disk

variable {t : Disk α} {s : String} {p : Path} {names place : List String} {n : Node α} {r : Spot}
  {k : Nat}

theorem find_eq_ok_iff_spotOf :
    t.find s last = .ok n ↔
      ∃ place, t.spotOf s last = .ok (.present place) ∧ t.root.at? place = some n := by
  constructor
  · exact spotOf_of_find
  · rintro ⟨place, hspot, hplace⟩
    rw [find, hspot]
    dsimp only
    rw [hplace]

theorem spotOf_eq_ok_iff : t.spotOf s last = .ok r ↔
    PathText s ∧ ∃ n ≤ maxLinks, Leads t.root last (startOf s t.cwd) (stepsOf s) n r := by
  by_cases htext : PathText s
  · rw [spotOf_of_pathText htext, resolveSteps_eq_ok_iff]
    exact (and_iff_right htext).symm
  · obtain ⟨e, he⟩ := spotOf_of_not_pathText (α := α) htext
    rw [he]
    exact iff_of_false (fun h => by cases h) fun h => htext h.1

/-- A path leads to a place, over a number of links that may be followed. -/
structure LeadsTo (t : Disk α) (p : Path) (k : Nat) (place : List String) : Prop where
  text : PathText p.text
  leads : Leads t.root true (startOf p.text t.cwd) (stepsOf p.text) k (.present place)
  few : k ≤ maxLinks

theorem exists_leadsTo (h : t.find p.text = .ok n) :
    ∃ k place, t.LeadsTo p k place ∧ t.root.at? place = some n := by
  obtain ⟨place, hspot, hplace⟩ := spotOf_of_find h
  obtain ⟨htext, k, hk, hleads⟩ := spotOf_eq_ok_iff.mp hspot
  exact ⟨k, place, ⟨htext, hleads, hk⟩, hplace⟩

/-- What stands below a folder is found when its path is followed, and the path to the folder and
the names behind it go over no more links than are allowed. -/
theorem LeadsTo.spotOf_iff (h : t.LeadsTo p k place) (hnames : ∀ s ∈ names, PathName s)
    (hne : names ≠ []) :
    t.spotOf (below p names).text last = .ok r ↔ PathText (below p names).text ∧
      ∃ n, k + n ≤ maxLinks ∧ Leads t.root last place names n r := by
  obtain ⟨front, idle, hsteps, hidle, hbelow⟩ := exists_steps_below (p := p) hnames hne
  have hleads := h.leads
  rw [hsteps] at hleads
  have hfront := hleads.front_of_idle hidle
  have hstart : startOf (below p names).text t.cwd = startOf p.text t.cwd := by
    rw [startOf, startOf, startsWith_below hnames hne h.text.nonempty]
  rw [spotOf_eq_ok_iff, hbelow, hstart]
  refine and_congr_right fun _ => ?_
  constructor
  · rintro ⟨n, hn, h⟩
    obtain ⟨k', m, q, rfl, hfront', hback⟩ := (leads_append_iff hne).mp h
    obtain ⟨rfl, hq⟩ := hfront.deterministic hfront'
    cases hq
    exact ⟨m, hn, hback⟩
  · rintro ⟨n, hn, h⟩
    exact ⟨k + n, hn, (leads_append_iff hne).mpr ⟨k, n, place, rfl, hfront, h⟩⟩

/-- The folder itself stands behind no names. -/
theorem LeadsTo.spotOf_iff_of_last (h : t.LeadsTo p k place) (hnames : ∀ s ∈ names, PathName s) :
    t.spotOf (below p names).text = .ok r ↔ PathText (below p names).text ∧
      ∃ n, k + n ≤ maxLinks ∧ Leads t.root true place names n r := by
  by_cases hne : names = []
  · subst hne
    rw [below_nil, spotOf_eq_ok_iff]
    refine and_congr_right fun _ => ?_
    constructor
    · rintro ⟨n, hn, hleads⟩
      obtain ⟨-, rfl⟩ := h.leads.deterministic hleads
      exact ⟨0, h.few, .stays place⟩
    · rintro ⟨n, -, hleads⟩
      cases hleads
      exact ⟨k, h.few, h.leads⟩
  · exact h.spotOf_iff hnames hne

theorem LeadsTo.find_iff (h : t.LeadsTo p k place) (hnames : ∀ s ∈ names, PathName s) :
    t.find (below p names).text = .ok n ↔ PathText (below p names).text ∧
      ∃ m q, k + m ≤ maxLinks ∧ Leads t.root true place names m (.present q) ∧
        t.root.at? q = some n := by
  rw [find_eq_ok_iff_spotOf]
  constructor
  · rintro ⟨q, hspot, hq⟩
    obtain ⟨htext, m, hm, hleads⟩ := (h.spotOf_iff_of_last hnames).mp hspot
    exact ⟨htext, m, q, hm, hleads, hq⟩
  · rintro ⟨htext, m, q, hm, hleads, hq⟩
    exact ⟨q, (h.spotOf_iff_of_last hnames).mpr ⟨htext, m, hm, hleads⟩, hq⟩

/-- Names below a folder lead to what they lead to in the folder, if the path is followed. -/
theorem find_below (hp : t.find p.text = .ok n) {m : Node α} (hm : n.at? names = some m)
    (hnames : ∀ s ∈ names, PathName s) (hne : names ≠ []) (htext : PathText (below p names).text)
    (hlink : last = false ∨ ∀ target, m ≠ .link target) :
    t.find (below p names).text last = .ok m := by
  obtain ⟨k, place, htop, hplace⟩ := exists_leadsTo hp
  refine find_eq_ok_iff_spotOf.mpr ⟨place ++ names, (htop.spotOf_iff hnames hne).mpr
    ⟨htext, 0, htop.few, leads_names hplace hm hnames hlink⟩, ?_⟩
  rw [Node.at?_append, hplace, Option.bind_some, hm]

/-- A name that a folder does not have leads to nothing. -/
theorem find_below_missing {es : List (String × Node α)} (hp : t.find p.text = .ok (.folder es))
    {c : String} (hc : PathName c) (hmissing : es.lookup c = none)
    (htext : PathText (below p [c]).text) :
    t.find (below p [c]).text last = .error .notFound := by
  obtain ⟨k, place, htop, hplace⟩ := exists_leadsTo hp
  have hspot : t.spotOf (below p [c]).text last = .ok (.absent place c) :=
    (htop.spotOf_iff (by simpa using hc) (List.cons_ne_nil c [])).mpr
      ⟨htext, 0, htop.few, .misses (turn_missing hplace hc hmissing)⟩
  rw [find, hspot]

/-- A path that is followed to its end leads to no link. -/
theorem find_ne_link (t : Disk α) (s target : String) : t.find s ≠ .ok (.link target) := by
  intro h
  obtain ⟨place, hspot, hplace⟩ := spotOf_of_find h
  obtain ⟨-, n, -, hleads⟩ := spotOf_eq_ok_iff.mp hspot
  exact hleads.not_link (stepsOf_ne_nil s) rfl target hplace

end Disk

end SourceShelf.Files
