import Mathlib
import SourceShelf.Proofs.Source.Candidates

/-!
# Scans that follow links

A scan that follows links keeps no record of the folders where it was.  It finds every path of
names below its folder that leads to a file, over links or not, if the path passes the rules
(`Reached`); a link that leads back to a folder on its path is gone through like any other, until
a path has too many links or is too long.

* `Here`: what is known of the folder where a walk is; `Here.entry`, `Here.link` are its steps.
* `StandsBelow`: an entry to whose folder names lead.
* `of_mem_listedFrom`, `mem_listedFrom`: what a walk lists, by induction along the names.
* `keeps_judge_iff`, `overlong_of_judge_error`: what becomes of it.
* `crossed_le`: no path has more links than are followed.
* `LeadsBack.spotOf_eq`: what stands behind a link that leads back.
* `candidateFiles_over_links`: the scan.
-/

namespace SourceShelf

open Files SourceShelf.Action

variable {α : Type} {bytesOf : α → ByteArray} {t : Disk α} {folder : Path} {rules : Ignore.Rules}
variable {o : IndexOptions} {names here start q : List String} {es : List (String × Node α)}
variable {k m : Nat}

/-! ## Where a walk is -/

/-- A walk is in a folder below the one where it started: the names lead to it over `m` links, and
the path of the first folder goes over `k` more. -/
structure Here (t : Disk α) (folder : Path) (k : Nat) (start here : List String)
    (es : List (String × Node α)) (m : Nat) (q : List String) : Prop where
  top : t.LeadsTo folder k start
  names : ∀ s ∈ here, PathName s
  text : PathText (below folder here).text
  leads : Leads t.root true start here m (.present q)
  few : k + m ≤ maxLinks
  stands : t.root.at? q = some (.folder es)

/-- A walk starts in the folder to which a path leads. -/
theorem exists_here (hfolder : t.find folder.text = .ok (.folder es)) :
    ∃ k start, Here t folder k start [] es 0 start := by
  obtain ⟨k, start, htop, hstart⟩ := Disk.exists_leadsTo hfolder
  exact ⟨k, start, htop, by simp, (below_nil folder).symm ▸ htop.text, .stays start, htop.few,
    hstart⟩

namespace Here

theorem find_iff (h : Here t folder k start here es m q) (hnames : ∀ s ∈ names, PathName s)
    {n : Node α} :
    t.find (below folder (here ++ names)).text = .ok n ↔
      PathText (below folder (here ++ names)).text ∧ ∃ m' q', k + (m + m') ≤ maxLinks ∧
        Leads t.root true q names m' (.present q') ∧ t.root.at? q' = some n := by
  have hall : ∀ s ∈ here ++ names, PathName s := fun s hs =>
    (List.mem_append.mp hs).elim (h.names s) (hnames s)
  rw [h.top.find_iff hall]
  refine and_congr_right fun _ => ?_
  constructor
  · rintro ⟨n', q', hfew, hleads, hq'⟩
    obtain ⟨m₁, m', q₁, rfl, hhere, hnext⟩ := leads_append_present_iff.mp hleads
    obtain ⟨rfl, hq⟩ := h.leads.deterministic hhere
    cases hq
    exact ⟨m', q', hfew, hnext, hq'⟩
  · rintro ⟨m', q', hfew, hleads, hq'⟩
    exact ⟨m + m', q', hfew,
      leads_append_present_iff.mpr ⟨m, m', q, rfl, h.leads, hleads⟩, hq'⟩

/-- The walk goes on from where a name leads. -/
theorem next (h : Here t folder k start here es m q) {c : String} (hc : PathName c)
    (htext : PathText (below folder (here ++ [c])).text) {m' : Nat} {q' : List String}
    (hfew : k + (m + m') ≤ maxLinks) (hleads : Leads t.root true q [c] m' (.present q'))
    {es' : List (String × Node α)} (hstands : t.root.at? q' = some (.folder es')) :
    Here t folder k start (here ++ [c]) es' (m + m') q' where
  top := h.top
  names s hs := (List.mem_append.mp hs).elim (h.names s) fun hs => List.mem_singleton.mp hs ▸ hc
  text := htext
  leads := leads_append_present_iff.mpr ⟨m, m', q, rfl, h.leads, hleads⟩
  few := hfew
  stands := hstands

/-- The walk goes into a folder. -/
theorem entry (h : Here t folder k start here es m q) {c : String} (hc : PathName c)
    (htext : PathText (below folder (here ++ [c])).text) {es' : List (String × Node α)}
    (hlookup : es.lookup c = some (.folder es')) :
    Here t folder k start (here ++ [c]) es' m (q ++ [c]) :=
  h.next hc htext h.few (leads_entry h.stands hc hlookup fun _ heq => by cases heq)
    ((Node.at?_concat h.stands c).trans hlookup)

/-- The walk goes through a link to a folder, which is one link more at least. -/
theorem link (h : Here t folder k start here es m q) {c : String} (hc : PathName c)
    {target : String} (hlookup : es.lookup c = some (.link target))
    (hfolder : t.isFolder (below folder (here ++ [c])) = true) :
    ∃ es' m' q', m < m' ∧ Here t folder k start (here ++ [c]) es' m' q' := by
  obtain ⟨es', hfind⟩ := Disk.exists_find_of_isFolder hfolder
  obtain ⟨htext, m', q', hfew, hleads, hq'⟩ := (h.find_iff (by simpa using hc)).mp hfind
  have hpos := hleads.pos_of_link h.stands hc hlookup
  exact ⟨es', m + m', q', by omega, h.next hc htext hfew hleads hq'⟩

/-- Where a folder is found behind more names, the walk can go on from the first of them. -/
theorem towards (h : Here t folder k start here es m q) {c : String} {mid : List String}
    (hnames : ∀ s ∈ c :: mid, PathName s) {es' : List (String × Node α)}
    (hfind : t.find (below folder (here ++ c :: mid)).text = .ok (.folder es')) :
    ∃ n m' q' es₁, es.lookup c = some n ∧ Leads t.root true q [c] m' (.present q') ∧
      Here t folder k start (here ++ [c]) es₁ (m + m') q' := by
  have hc : PathName c := hnames c List.mem_cons_self
  obtain ⟨htext, m', q', hfew, hleads, hq'⟩ := (h.find_iff hnames).mp hfind
  rw [← List.singleton_append] at hleads
  obtain ⟨m₁, m₂, p, rfl, hname, hrest⟩ := leads_append_present_iff.mp hleads
  obtain ⟨n, hlookup⟩ := hname.entry h.stands hc
  obtain ⟨es₁, hp⟩ : ∃ es₁, t.root.at? p = some (.folder es₁) := by
    cases mid with
    | nil =>
      cases hrest
      exact ⟨es', hq'⟩
    | cons x xs => exact hrest.folder_of_cons
  have htext₁ : PathText (below folder (here ++ [c])).text := by
    have hprefix : here ++ [c] <+: here ++ c :: mid := ⟨mid, by simp⟩
    refine Disk.pathText_below_of_sublist hprefix.sublist (fun s hs => ?_) (by simp) htext
    exact (List.mem_append.mp hs).elim (h.names s) (hnames s)
  exact ⟨n, m₁, p, es₁, hlookup, hname, h.next hc htext₁ (by omega) hname hp⟩

/-- What the walk finds where it is. -/
theorem find (h : Here t folder k start here es m q) :
    t.find (below folder here).text = .ok (.folder es) := by
  rw [← List.append_nil here]
  exact (h.find_iff (by simp)).mpr
    ⟨by rw [List.append_nil]; exact h.text, 0, q, h.few, .stays q, h.stands⟩

end Here

/-! ## What a walk lists -/

/-- The walk of a scan that follows links. -/
def linkWalk (t : Disk α) (folder : Path) (rules : Ignore.Rules) : Walk where
  isFolder names := t.isFolder (below folder names)
  isPruned names := rules.ignores (joined names ++ "/")
  followsLinks := true

/-- What stands at a place below a folder. -/
def nodeBelow (t : Disk α) (folder : Path) (names : List String) : Option (Node α) :=
  (t.find (below folder names).text).toOption

/-- The files that the walk lists in the folder where it is, with links to go through. -/
def listedFrom (t : Disk α) (folder : Path) (rules : Ignore.Rules) (links : Nat)
    (here : List String) (es : List (String × Node α)) : List (List String) :=
  Walk.filesIn (linkWalk t folder rules)
    ((linkWalk t folder rules).filesAt (nodeBelow t folder) links) here (.folder es)

theorem Here.filesAt_succ (h : Here t folder k start here es m q) (links : Nat) :
    (linkWalk t folder rules).filesAt (nodeBelow t folder) (links + 1) here =
      listedFrom t folder rules links here es := by
  rw [Walk.filesAt, nodeBelow, h.find]
  rfl

/-- An entry of a folder below a folder, to which a path of names leads, over links or not. -/
structure StandsBelow (t : Disk α) (folder : Path) (names : List String) (n : Node α) : Prop where
  pathNames : ∀ s ∈ names, PathName s
  entry : ∃ front c es, names = front ++ [c] ∧
    t.find (below folder front).text = .ok (.folder es) ∧ es.lookup c = some n

section Listing

variable (htree : t.root.Named)

include htree

theorem filesAt_linkWalk_listed (links : Nat) (place : List String) :
    Listed place ((linkWalk t folder rules).filesAt (nodeBelow t folder) links place) :=
  Walk.filesAt_listed (fun _ _ hn => Disk.tidy_of_toOption_find htree.tidy hn) links place

theorem mem_listedFrom_cons (h : Here t folder k start here es m q) (links : Nat) (c : String)
    (cs : List String) :
    here ++ c :: cs ∈ listedFrom t folder rules links here es ↔
      ∃ n, es.lookup c = some n ∧
        (cs = [] ∧ (linkWalk t folder rules).Meets (here ++ [c]) n ∨
          cs ≠ [] ∧ rules.ignores (joined (here ++ [c]) ++ "/") = false ∧
            (linkWalk t folder rules).Enters
              ((linkWalk t folder rules).filesAt (nodeBelow t folder) links)
              (here ++ [c]) (here ++ [c] ++ cs) n) :=
  Walk.mem_filesIn_cons (filesAt_linkWalk_listed htree links) (htree.at? h.stands).tidy here c cs

theorem not_mem_listedFrom (h : Here t folder k start here es m q) (links : Nat) :
    here ++ [] ∉ listedFrom t folder rules links here es :=
  Walk.not_mem_filesIn (filesAt_linkWalk_listed htree links) (htree.at? h.stands).tidy here

/-- What a walk lists is an entry of a folder to which names lead, and no folder on the way to it
is ignored. -/
theorem of_mem_listedFrom (h : Here t folder k start here es m q) {links : Nat}
    (hmem : here ++ names ∈ listedFrom t folder rules links here es) :
    ∃ n, StandsBelow t folder (here ++ names) n ∧
      (linkWalk t folder rules).Meets (here ++ names) n ∧
      ∀ front, OnTheWay front names → rules.ignores (joined (here ++ front) ++ "/") = false := by
  induction names generalizing links here es m q with
  | nil => exact absurd hmem (not_mem_listedFrom htree h links)
  | cons c cs ih =>
    obtain ⟨n, hlookup, hn⟩ := (mem_listedFrom_cons htree h links c cs).mp hmem
    have hc : PathName c := (htree q es h.stands).2 (c, n) (mem_of_lookup hlookup)
    have hplace : here ++ c :: cs = (here ++ [c]) ++ cs := by simp
    obtain ⟨rfl, hmeets⟩ | ⟨hcs, hopen, henters⟩ := hn
    · refine ⟨n, ⟨fun s hs => ?_, here, c, es, rfl, h.find, hlookup⟩, hmeets, ?_⟩
      · rcases List.mem_append.mp hs with hs | hs
        · exact h.names s hs
        · exact List.mem_singleton.mp hs ▸ hc
      · rintro front ⟨hne, hprefix, hproper⟩
        exact absurd (List.IsPrefix.eq_of_length_le hprefix (List.length_pos_iff.mpr hne)) hproper
    · obtain ⟨n', hstands, hmeets, hfree⟩ : ∃ n', StandsBelow t folder (here ++ [c] ++ cs) n' ∧
          (linkWalk t folder rules).Meets (here ++ [c] ++ cs) n' ∧
          ∀ front, OnTheWay front cs →
            rules.ignores (joined (here ++ [c] ++ front) ++ "/") = false := by
        cases n with
        | file content => exact henters.elim
        | folder es' =>
          obtain ⟨es'', hfind⟩ := Disk.exists_find_of_isFolder henters.1
          exact ih (h.entry hc (Disk.pathText_of_find hfind) hlookup) henters.2
        | link target =>
          obtain ⟨hisFolder, -, hjump⟩ := henters
          obtain ⟨es', m', q', -, h'⟩ := h.link hc hlookup hisFolder
          cases links with
          | zero => exact absurd hjump List.not_mem_nil
          | succ links =>
            rw [h'.filesAt_succ links] at hjump
            exact ih h' hjump
      rw [hplace, forall_onTheWay_cons]
      exact ⟨n', hstands, hmeets, fun _ => hopen,
          fun front hfront => by simpa using hfree front hfront⟩

/-- An entry of a folder to which names lead is listed, if no folder on the way is ignored: with
the links that are left a walk comes as far as any path leads. -/
theorem mem_listedFrom (h : Here t folder k start here es m q) {links : Nat}
    (hlinks : maxLinks ≤ links + m) {n : Node α} (hstands : StandsBelow t folder (here ++ names) n)
    (hne : names ≠ []) (hmeets : (linkWalk t folder rules).Meets (here ++ names) n)
    (hfree : ∀ front, OnTheWay front names →
      rules.ignores (joined (here ++ front) ++ "/") = false) :
    here ++ names ∈ listedFrom t folder rules links here es := by
  induction names generalizing links here es m q with
  | nil => exact absurd rfl hne
  | cons c cs ih =>
    have hplace : here ++ c :: cs = (here ++ [c]) ++ cs := by simp
    have hnames : ∀ s ∈ c :: cs, PathName s := fun s hs =>
      hstands.pathNames s (List.mem_append_right here hs)
    have hc : PathName c := hnames c List.mem_cons_self
    obtain ⟨front, d, es', hlast, hfind, hentry⟩ := hstands.entry
    rw [forall_onTheWay_cons] at hfree
    by_cases hcs : cs = []
    · subst hcs
      obtain ⟨rfl, hd⟩ := List.append_inj' hlast rfl
      obtain rfl := List.singleton_inj.mp hd
      cases h.find.symm.trans hfind
      exact (mem_listedFrom_cons htree h links c []).mpr ⟨n, hentry, .inl ⟨rfl, hmeets⟩⟩
    · -- the folder that has the entry is found behind the first name
      obtain ⟨mid, rfl⟩ : ∃ mid, front = here ++ c :: mid := by
        rw [← List.dropLast_concat_getLast hcs, ← List.cons_append, ← List.append_assoc] at hlast
        exact ⟨cs.dropLast, (List.append_inj' hlast rfl).1.symm⟩
      have hmid : ∀ s ∈ c :: mid, PathName s := by
        intro s hs
        refine hstands.pathNames s ?_
        rw [hlast]
        exact List.mem_append_left _ (List.mem_append_right here hs)
      obtain ⟨k', m₁, p, es₁, hlookup, hname, h₁⟩ := h.towards hmid hfind
      have hfree' (front : List String) (hfront : OnTheWay front cs) :
          rules.ignores (joined (here ++ [c] ++ front) ++ "/") = false := by
        simpa using hfree.2 front hfront
      rw [hplace] at hstands hmeets
      refine (mem_listedFrom_cons htree h links c cs).mpr
        ⟨k', hlookup, .inr ⟨hcs, hfree.1 hcs, ?_⟩⟩
      cases k' with
      | file content' =>
        cases (hname.deterministic (leads_entry h.stands hc hlookup fun _ heq => by cases heq)).2
        have hp := h₁.stands
        rw [Node.at?_concat h.stands c, hlookup] at hp
        cases hp
      | folder es₂ =>
        have h₂ := h.entry hc h₁.text hlookup
        have hisFolder : t.isFolder (below folder (here ++ [c])) = true := by
          rw [Disk.isFolder, h₂.find]
        exact ⟨hisFolder, ih h₂ hlinks hstands hcs hmeets hfree'⟩
      | link target =>
        have hisFolder : t.isFolder (below folder (here ++ [c])) = true := by
          rw [Disk.isFolder, h₁.find]
        have hpos := hname.pos_of_link h.stands hc hlookup
        have hfew := h₁.few
        -- the links gone over and those left make up the limit, and the path has not reached it
        obtain ⟨links, rfl⟩ : ∃ l, links = l + 1 := Nat.exists_eq_add_one_of_ne_zero (by omega)
        refine ⟨hisFolder, rfl, ?_⟩
        rw [h₁.filesAt_succ links]
        exact ih h₁ (by omega) hstands hcs hmeets hfree'

/-- What a scan that follows links looks at: each entry that is no folder and leads to none, if no
folder on the way to it is ignored. -/
theorem mem_filesBelow_over_links {entries : List (String × Node α)}
    (hfolder : t.find folder.text = .ok (.folder entries)) :
    names ∈ filesBelow t folder rules true ↔
      ∃ n, StandsBelow t folder names n ∧ (linkWalk t folder rules).Meets names n ∧
        ∀ front, OnTheWay front names → rules.ignores (joined front ++ "/") = false := by
  obtain ⟨k, start, hhere⟩ := exists_here hfolder
  have hlisted : filesBelow t folder rules true = listedFrom t folder rules maxLinks [] entries :=
    hhere.filesAt_succ maxLinks
  rw [hlisted]
  constructor
  · exact of_mem_listedFrom htree hhere
  · rintro ⟨n, hstands, hmeets, hfree⟩
    obtain ⟨front, c, -, rfl, -, -⟩ := hstands.entry
    exact mem_listedFrom htree hhere (Nat.le_refl _) hstands (by simp) hmeets hfree

end Listing

/-! ## What becomes of an entry -/

/-- A file below a folder, to which a path of names leads, over links or not, and that passes the
rules: its suffix is looked for, no rule ignores it, and none ignores a folder on the way to it. -/
structure Reached (t : Disk α) (folder : Path) (rules : Ignore.Rules) (o : IndexOptions)
    (names : List String) (content : α) : Prop where
  found : t.find (below folder names).text = .ok (.file content)
  pathNames : ∀ s ∈ names, PathName s
  suffix : lowercase (Path.suffixOf (names.getLastD "")) ∈ o.suffixes
  kept : rules.ignores (joined names) = false
  reached : ∀ front, OnTheWay front names → rules.ignores (joined front ++ "/") = false

namespace StandsBelow

variable {n : Node α}

theorem ne_nil (h : StandsBelow t folder names n) : names ≠ [] := by
  obtain ⟨front, c, -, rfl, -, -⟩ := h.entry
  simp

/-- An entry is found where it stands, a link if it is not followed. -/
theorem find (h : StandsBelow t folder names n) (hfolder : t.find folder.text = .ok (.folder es))
    (htext : PathText (below folder names).text) {last : Bool}
    (hlink : last = false ∨ ∀ target, n ≠ .link target) :
    t.find (below folder names).text last = .ok n := by
  obtain ⟨front, c, es', rfl, hfind, hlookup⟩ := h.entry
  obtain ⟨k, start, htop, -⟩ := Disk.exists_leadsTo hfolder
  have hfront : ∀ s ∈ front, PathName s := fun s hs => h.pathNames s (List.mem_append_left _ hs)
  have hc : PathName c := h.pathNames c (by simp)
  obtain ⟨-, m, q, hfew, hleads, hq⟩ := (htop.find_iff hfront).mp hfind
  have hat := Node.at?_concat hq c
  rw [hlookup] at hat
  have hname : Leads t.root last q [c] 0 (.present (q ++ [c])) :=
    leads_names hq (by rw [Node.at?, Node.child?, hlookup]; rfl) (by simpa using hc) hlink
  exact Disk.find_eq_ok_iff_spotOf.mpr ⟨q ++ [c], (htop.spotOf_iff h.pathNames h.ne_nil).mpr
    ⟨htext, m + 0, hfew, (leads_append_iff (List.cons_ne_nil c [])).mpr
      ⟨m, 0, q, rfl, hleads, hname⟩⟩, hat⟩

theorem exists_isLink (h : StandsBelow t folder names n)
    (hfolder : t.find folder.text = .ok (.folder es)) (htext : PathText (below folder names).text) :
    ∃ link, isLink t (below folder names) = .ok link :=
  ⟨_, isLink_of_find (h.find hfolder htext (.inl rfl))⟩

/-- An entry that is listed is behind no path to a folder. -/
theorem isFolder_eq_false (h : StandsBelow t folder names n)
    (hfolder : t.find folder.text = .ok (.folder es))
    (hmeets : (linkWalk t folder rules).Meets names n) :
    t.isFolder (below folder names) = false := by
  cases n with
  | folder es' => exact hmeets.elim
  | link target => exact hmeets
  | file content =>
    by_cases htext : PathText (below folder names).text
    · rw [Disk.isFolder, h.find hfolder htext (.inr fun target heq => by cases heq)]
    · obtain ⟨e, he⟩ := Disk.spotOf_of_not_pathText (α := α) htext
      rw [Disk.isFolder, Disk.find, he]

/-- The folders on the way to an entry have paths that can be followed. -/
theorem pathText_onTheWay (h : StandsBelow t folder names n) {front : List String}
    (hfront : OnTheWay front names) : PathText (below folder front).text := by
  obtain ⟨top, c, es', rfl, hfind, -⟩ := h.entry
  obtain ⟨hne, hprefix, hproper⟩ := hfront
  have htop : front <+: top := (List.prefix_concat_iff.mp hprefix).resolve_left hproper
  exact Disk.pathText_below_of_sublist htop.sublist
    (fun s hs => h.pathNames s (List.mem_append_left _ hs)) hne (Disk.pathText_of_find hfind)

end StandsBelow

theorem isFolder_eq_false_of_find_file {p : Path} {content : α}
    (h : t.find p.text = .ok (.file content)) : t.isFolder p = false := by
  rw [Disk.isFolder, h]

/-- A file to which names lead is, or is behind, an entry. -/
theorem Reached.standsBelow {content : α} (h : Reached t folder rules o names content)
    (hfolder : t.find folder.text = .ok (.folder es)) :
    ∃ n, StandsBelow t folder names n ∧ (linkWalk t folder rules).Meets names n := by
  obtain ⟨k, start, htop, hstart⟩ := Disk.exists_leadsTo hfolder
  obtain ⟨htext, m, q, hfew, hleads, hq⟩ := (htop.find_iff h.pathNames).mp h.found
  rcases List.eq_nil_or_concat' names with rfl | ⟨front, c, rfl⟩
  · cases hleads
    rw [hstart] at hq
    cases hq
  have hc : PathName c := h.pathNames c (by simp)
  obtain ⟨m₁, m₂, p, rfl, hfront, hname⟩ := leads_append_present_iff.mp hleads
  obtain ⟨es', hp⟩ := hname.folder_of_cons
  obtain ⟨n, hlookup⟩ := hname.entry hp hc
  have hnames : ∀ s ∈ front, PathName s := fun s hs => h.pathNames s (by simp [hs])
  have htextFront : PathText (below folder front).text := by
    by_cases hnil : front = []
    · subst hnil
      exact (below_nil folder).symm ▸ htop.text
    · exact Disk.pathText_below_of_sublist (by simp) h.pathNames hnil htext
  have hfind : t.find (below folder front).text = .ok (.folder es') :=
    (htop.find_iff hnames).mpr ⟨htextFront, m₁, p, by omega, hfront, hp⟩
  refine ⟨n, ⟨h.pathNames, front, c, es', rfl, hfind, hlookup⟩, ?_⟩
  cases n with
  | file _ => trivial
  | link _ => exact isFolder_eq_false_of_find_file h.found
  | folder es'' =>
    cases (hname.deterministic (leads_entry hp hc hlookup fun _ heq => by cases heq)).2
    rw [Node.at?_concat hp c, hlookup] at hq
    cases hq

/-- What a scan that follows links keeps of what is listed: the files that are found. -/
theorem keeps_judge_iff (hfollow : o.followSymlinks = true) (hne : names ≠ [])
    (hlink : PathText (below folder names).text →
      ∃ link, isLink t (below folder names) = .ok link)
    (hfolder : t.isFolder (below folder names) = false) :
    keeps (judge bytesOf t folder rules o names) = true ↔
      ∃ content limit, t.find (below folder names).text = .ok (.file content) ∧
        lowercase (Path.suffixOf (names.getLastD "")) ∈ o.suffixes ∧
        rules.ignores (joined names) = false ∧ o.maxFileBytes = .ok limit ∧
        ((bytesOf content).size : Int) ≤ limit := by
  rcases hfind : t.find (below folder names).text with e | (content | es | target)
  · have hsize : fileSize bytesOf t (below folder names) = .error e := by
      rw [fileSize, hfind]
      rfl
    have hnot : keeps (judge bytesOf t folder rules o names) = false := by
      rw [judge_eq hne, hsize, hfollow]
      split
      · rcases isLink t (below folder names) with e | link
        · rfl
        · dsimp only
          rw [Bool.not_true, Bool.and_false, if_neg Bool.false_ne_true]
          rfl
      · rfl
    rw [hnot]
    simp
  · obtain ⟨link, hisLink⟩ := hlink (Disk.pathText_of_find hfind)
    rw [judge_found hne hisLink (by rw [hfollow, Bool.not_true, Bool.and_false]) hfind]
    constructor
    · intro h
      by_cases hpass : lowercase (Path.suffixOf (names.getLastD "")) ∈ o.suffixes ∧
          rules.ignores (joined names) = false
      · rw [if_pos hpass] at h
        rcases hlimit : o.maxFileBytes with e | limit
        · rw [hlimit] at h
          cases h
        · refine ⟨content, limit, rfl, hpass.1, hpass.2, rfl, not_lt.mp fun hlarge => ?_⟩
          rw [hlimit, Except.map, if_pos hlarge] at h
          cases h
      · rw [if_neg hpass] at h
        cases h
    · rintro ⟨content', limit, hsame, hsuffix, hkept, hlimit, hsmall⟩
      cases hsame
      rw [if_pos ⟨hsuffix, hkept⟩, hlimit, Except.map, if_neg (not_lt.mpr hsmall)]
      rfl
  · rw [Disk.isFolder, hfind] at hfolder
    cases hfolder
  · exact absurd hfind (t.find_ne_link _ target)

section Scan

variable {entries : List (String × Node α)} (htree : t.root.Named)
  (hfolder : t.find folder.text = .ok (.folder entries)) (hfollow : o.followSymlinks = true)

include htree hfolder

/-- What passes the rules and has a path that is too long cannot be judged. -/
theorem judge_of_overlong (bytesOf : α → ByteArray)
    {n : Node α} (hstands : StandsBelow t folder names n)
    (hlong : Overlong folder rules o names n) :
    names ∈ filesBelow t folder rules true ∧
      judge bytesOf t folder rules o names = .error (.longPath (below folder names).text) := by
  refine ⟨(mem_filesBelow_over_links htree hfolder).mpr ⟨n, hstands, ?_, fun front hfront =>
    (hlong.reached front hfront).1⟩, hlong.judge_eq bytesOf t hstands.ne_nil⟩
  cases n with
  | file content => trivial
  | folder es' => exact absurd rfl (hlong.noFolder es')
  | link target =>
    change t.isFolder (below folder names) = false
    rw [Disk.isFolder, Disk.find_of_long hlong.long]

/-- With a limit that is a number of bytes, nothing else is an error. -/
theorem overlong_of_judge_error (hmem : names ∈ filesBelow t folder rules true) {limit : Int}
    (hlimit : o.maxFileBytes = .ok limit) {e : LimitError}
    (h : judge bytesOf t folder rules o names = .error e) :
    ∃ n, StandsBelow t folder names n ∧ Overlong folder rules o names n := by
  obtain ⟨n, hstands, hmeets, hfree⟩ := (mem_filesBelow_over_links htree hfolder).mp hmem
  rw [judge_eq hstands.ne_nil, hlimit] at h
  by_cases hpass : lowercase (Path.suffixOf (names.getLastD "")) ∈ o.suffixes ∧
      rules.ignores (joined names) = false
  · rw [if_pos hpass] at h
    refine ⟨n, hstands, ?_, hpass.1, hpass.2,
      fun front hfront => ⟨hfree front hfront, hstands.pathText_onTheWay hfront⟩,
      not_le.mp fun hshort => ?_⟩
    · rintro es' rfl
      exact hmeets
    · obtain ⟨link, hisLink⟩ := hstands.exists_isLink hfolder
        ⟨Disk.text_ne_empty_below hstands.pathNames hstands.ne_nil, hshort⟩
      rw [hisLink] at h
      dsimp only at h
      split at h
      · cases h
      · split at h <;> cases h
  · rw [if_neg hpass] at h
    cases h

include hfollow

/-- What a scan that follows links looks at and keeps. -/
theorem mem_filesBelow_keeps_iff :
    names ∈ filesBelow t folder rules true ∧
        keeps (judge bytesOf t folder rules o names) = true ↔
      ∃ content limit, Reached t folder rules o names content ∧ o.maxFileBytes = .ok limit ∧
        ((bytesOf content).size : Int) ≤ limit := by
  constructor
  · rintro ⟨hmem, hkeeps⟩
    obtain ⟨n, hstands, hmeets, hfree⟩ := (mem_filesBelow_over_links htree hfolder).mp hmem
    obtain ⟨content, limit, hfind, hsuffix, hkept, hsize⟩ :=
      (keeps_judge_iff hfollow hstands.ne_nil (hstands.exists_isLink hfolder)
        (hstands.isFolder_eq_false hfolder hmeets)).mp hkeeps
    exact ⟨content, limit, ⟨hfind, hstands.pathNames, hsuffix, hkept, hfree⟩, hsize⟩
  · rintro ⟨content, limit, hreached, hsize⟩
    obtain ⟨n, hstands, hmeets⟩ := hreached.standsBelow hfolder
    refine
      ⟨(mem_filesBelow_over_links htree hfolder).mpr ⟨n, hstands, hmeets, hreached.reached⟩, ?_⟩
    exact (keeps_judge_iff hfollow hstands.ne_nil (hstands.exists_isLink hfolder)
      (isFolder_eq_false_of_find_file hreached.found)).mpr
      ⟨content, limit, hreached.found, hreached.suffix, hreached.kept, hsize⟩

/-- A scan returns if the limit is a number of bytes and no path that passes the rules is too
long. -/
theorem exists_candidateFiles (hrules : scanRules bytesOf t folder o = .ok rules) {limit : Int}
    (hlimit : o.maxFileBytes = .ok limit)
    (hshort : ∀ names n, StandsBelow t folder names n → ¬ Overlong folder rules o names n)
    (log : List LogRecord) :
    ∃ files log', (candidateFiles bytesOf t folder o).runOn log = (.ok files, log') := by
  obtain ⟨-, log', hok⟩ | ⟨names, hmem, e, he, -⟩ := candidateFiles_cases hrules log
  · exact ⟨_, log', hok⟩
  · rw [hfollow] at hmem
    obtain ⟨n, hstands, hlong⟩ := overlong_of_judge_error htree hfolder hmem hlimit he
    exact absurd hlong (hshort names n hstands)

/-- A scan fails at a path that passes the rules and is too long, if not before. -/
theorem candidateFiles_error (hrules : scanRules bytesOf t folder o = .ok rules) {n : Node α}
    (hstands : StandsBelow t folder names n) (hlong : Overlong folder rules o names n)
    (log : List LogRecord) :
    ∃ e, ((candidateFiles bytesOf t folder o).runOn log).1 = .error (.limit e) := by
  obtain ⟨hmem, herror⟩ := judge_of_overlong htree hfolder bytesOf hstands hlong
  obtain ⟨hall, -⟩ | ⟨-, -, e, -, hrun⟩ := candidateFiles_cases hrules log
  · rw [hfollow] at hall
    obtain ⟨v, hv⟩ := hall names hmem
    rw [herror] at hv
    cases hv
  · exact ⟨e, hrun⟩

/-- What a scan that follows links finds, if it returns. -/
theorem mem_candidateFiles_iff (hrules : scanRules bytesOf t folder o = .ok rules)
    {files : List (List String)} {log log' : List LogRecord}
    (hrun : (candidateFiles bytesOf t folder o).runOn log = (.ok files, log')) :
    (files.map joined).Pairwise (· < ·) ∧
      ∀ names, names ∈ files ↔ ∃ content limit, Reached t folder rules o names content ∧
        o.maxFileBytes = .ok limit ∧ ((bytesOf content).size : Int) ≤ limit := by
  obtain ⟨-, log'', hok⟩ | ⟨names, -, e, -, herror⟩ := candidateFiles_cases hrules log
  · rw [hrun, hfollow] at hok
    obtain ⟨hfiles, -⟩ := Prod.mk.inj hok
    obtain rfl := Except.ok.inj hfiles
    refine ⟨pairwise_lt_mergeSort ?_, fun names => ?_⟩
    · exact ((filesBelow_listed htree.tidy folder rules true).of_subperm
        List.filter_sublist.subperm).nodup_joined
    · rw [List.mem_mergeSort, List.mem_filter]
      exact mem_filesBelow_keeps_iff htree hfolder hfollow
  · rw [hrun] at herror
    cases herror

end Scan

/-! ## Links on a path -/

/-- The number of links among the names of a path. -/
def crossed (t : Disk α) (folder : Path) (names : List String) : Nat :=
  names.inits.countP fun front => !front.isEmpty && isLink t (below folder front) = .ok true

theorem crossed_concat (names : List String) (c : String) :
    crossed t folder (names ++ [c]) =
      crossed t folder names +
        if isLink t (below folder (names ++ [c])) = .ok true then 1 else 0 := by
  unfold crossed
  rw [List.inits_append, List.countP_append]
  simp [List.countP_cons]

/-- What a name leads to that is not followed is a link only if the name is that of one. -/
theorem lookup_of_isLink (htop : t.LeadsTo folder k start) {c : String}
    (hnames : ∀ s ∈ names ++ [c], PathName s)
    (hleads : Leads t.root true start names m (.present q)) (hq : t.root.at? q = some (.folder es))
    (hlink : isLink t (below folder (names ++ [c])) = .ok true) :
    ∃ target, es.lookup c = some (.link target) := by
  have hc : PathName c := hnames c (by simp)
  obtain ⟨target, hfind⟩ : ∃ target,
      t.find (below folder (names ++ [c])).text false = .ok (.link target) := by
    unfold isLink Disk.look at hlink
    rcases hfind : t.find (below folder (names ++ [c])).text false with e | (_ | _ | target) <;>
      rw [hfind] at hlink
    · cases e <;> cases hlink
    · cases hlink
    · cases hlink
    · exact ⟨target, rfl⟩
  obtain ⟨p, hspot, hp⟩ := Disk.spotOf_of_find hfind
  obtain ⟨-, n, -, hall⟩ := (htop.spotOf_iff hnames (by simp)).mp hspot
  obtain ⟨m₁, m₂, q₁, -, hfront, hname⟩ := (leads_append_iff (List.cons_ne_nil c [])).mp hall
  cases (hleads.deterministic hfront).2
  obtain ⟨n, hlookup⟩ := hname.entry hq hc
  by_cases hentry : ∃ target, n = .link target
  · obtain ⟨target', rfl⟩ := hentry
    exact ⟨target', hlookup⟩
  · cases (hname.deterministic (leads_entry hq hc hlookup (not_exists.mp hentry))).2
    rw [Node.at?_concat hq, hlookup] at hp
    exact absurd ⟨target, Option.some.inj hp⟩ hentry

/-- Each link among the names of a path is followed. -/
theorem crossed_le_of_leads (htop : t.LeadsTo folder k start) (hnames : ∀ s ∈ names, PathName s)
    (hleads : Leads t.root true start names m (.present q)) : crossed t folder names ≤ m := by
  induction names using List.reverseRecOn generalizing m q with
  | nil => exact Nat.zero_le _
  | append_singleton names c ih =>
    obtain ⟨m₁, m₂, p, rfl, hfront, hname⟩ := leads_append_present_iff.mp hleads
    obtain ⟨es, hp⟩ := hname.folder_of_cons
    have hle := ih (fun s hs => hnames s (List.mem_append_left _ hs)) hfront
    rw [crossed_concat]
    split
    · rename_i hlink
      obtain ⟨target, hlookup⟩ := lookup_of_isLink htop hnames hfront hp hlink
      have hpos := hname.pos_of_link hp (hnames c (by simp)) hlookup
      omega
    · omega

/-- No path that leads to anything has more links than are followed. -/
theorem crossed_le {n n' : Node α} (hfolder : t.find folder.text = .ok n)
    (hnames : ∀ s ∈ names, PathName s) (hfind : t.find (below folder names).text = .ok n') :
    crossed t folder names ≤ maxLinks := by
  obtain ⟨k, start, htop, -⟩ := Disk.exists_leadsTo hfolder
  obtain ⟨-, m, q, hfew, hleads, -⟩ := (htop.find_iff hnames).mp hfind
  have hle := crossed_le_of_leads htop hnames hleads
  omega

/-! ## Links that lead back -/

/-- A link below a folder that leads back to a folder on its own path. -/
structure LeadsBack (t : Disk α) (folder : Path) (up front : List String) : Prop where
  link : isLink t (below folder front) = .ok true
  above : up <+: front ∧ up ≠ front
  same : ∃ place, t.spotOf (below folder up).text = .ok (.present place) ∧
    t.spotOf (below folder front).text = .ok (.present place)

/-- What is found through a link that leads back is found without it as well. -/
theorem LeadsBack.spotOf_eq {up front : List String} (h : LeadsBack t folder up front) {n : Node α}
    (hfolder : t.find folder.text = .ok n) {rest : List String}
    (hnames : ∀ s ∈ front ++ rest, PathName s) {r : List String}
    (hspot : t.spotOf (below folder (front ++ rest)).text = .ok (.present r)) :
    t.spotOf (below folder (up ++ rest)).text = .ok (.present r) := by
  obtain ⟨k, start, htop, -⟩ := Disk.exists_leadsTo hfolder
  obtain ⟨mid, rfl⟩ := h.above.1
  obtain ⟨place, hup, hfront⟩ := h.same
  have hupNames : ∀ s ∈ up, PathName s := fun s hs => hnames s (by simp [hs])
  have hfrontNames : ∀ s ∈ up ++ mid, PathName s := fun s hs =>
    hnames s (List.mem_append_left _ hs)
  have hshortNames : ∀ s ∈ up ++ rest, PathName s := fun s hs => by
    rcases List.mem_append.mp hs with hs | hs
    · exact hupNames s hs
    · exact hnames s (List.mem_append_right _ hs)
  obtain ⟨-, a, -, hupLeads⟩ := (htop.spotOf_iff_of_last hupNames).mp hup
  obtain ⟨-, b, -, hfrontLeads⟩ := (htop.spotOf_iff_of_last hfrontNames).mp hfront
  obtain ⟨htext, c, hfew, hleads⟩ := (htop.spotOf_iff_of_last hnames).mp hspot
  obtain ⟨b', d, p, rfl, hfrontLeads', hrest⟩ := leads_append_present_iff.mp hleads
  obtain ⟨rfl, hp⟩ := hfrontLeads.deterministic hfrontLeads'
  cases hp
  -- the way to the link goes over the folder, so it has no fewer links
  obtain ⟨a', e, p, rfl, hupLeads', -⟩ := leads_append_present_iff.mp hfrontLeads
  obtain ⟨rfl, -⟩ := hupLeads.deterministic hupLeads'
  have hshort : PathText (below folder (up ++ rest)).text := by
    by_cases hnil : up ++ rest = []
    · rw [hnil, below_nil]
      exact htop.text
    · rw [List.append_assoc] at htext hnames
      exact Disk.pathText_below_of_sublist
        ((List.Sublist.refl up).append (List.sublist_append_right mid rest)) hnames hnil htext
  exact (htop.spotOf_iff_of_last hshortNames).mpr ⟨hshort, a + d, by omega,
    leads_append_present_iff.mpr ⟨a, d, place, rfl, hupLeads, hrest⟩⟩

/-- What a scan does that follows links.  It returns, in the order of their paths and each once,
the paths of names below its folder that lead to a file, over links or not, and that pass the
rules and the limit on sizes; it fails just if one that passes the rules is too long to be looked
at.  No path has more links than are followed, so it comes to an end on every disk.  Through a link
that leads back to a folder on its path it goes like through any other: each path behind it leads to
the same file as the path without the link. -/
theorem candidateFiles_over_links {entries : List (String × Node α)} (htree : t.root.Named)
    (hfolder : t.find folder.text = .ok (.folder entries)) (hfollow : o.followSymlinks = true)
    (hrules : scanRules bytesOf t folder o = .ok rules) (log : List LogRecord) :
    (∀ limit, o.maxFileBytes = .ok limit →
      (∀ names n, StandsBelow t folder names n → ¬ Overlong folder rules o names n) →
      ∃ files log', (candidateFiles bytesOf t folder o).runOn log = (.ok files, log')) ∧
    (∀ names n, StandsBelow t folder names n → Overlong folder rules o names n →
      ∃ e, ((candidateFiles bytesOf t folder o).runOn log).1 = .error (.limit e)) ∧
    ∀ files log', (candidateFiles bytesOf t folder o).runOn log = (.ok files, log') →
      (files.map joined).Pairwise (· < ·) ∧
      (∀ names, names ∈ files ↔ ∃ content limit, Reached t folder rules o names content ∧
        o.maxFileBytes = .ok limit ∧ ((bytesOf content).size : Int) ≤ limit) ∧
      (∀ names ∈ files, crossed t folder names ≤ maxLinks) ∧
      ∀ up front rest, LeadsBack t folder up front → front ++ rest ∈ files →
        ∃ place, t.spotOf (below folder (front ++ rest)).text = .ok (.present place) ∧
          t.spotOf (below folder (up ++ rest)).text = .ok (.present place) := by
  refine ⟨fun limit hlimit hshort =>
      exists_candidateFiles htree hfolder hfollow hrules hlimit hshort log,
    fun names n hstands hlong =>
      candidateFiles_error htree hfolder hfollow hrules hstands hlong log,
    fun files log' hrun => ?_⟩
  obtain ⟨hsorted, hmem⟩ := mem_candidateFiles_iff htree hfolder hfollow hrules hrun
  refine ⟨hsorted, hmem, fun names hnames => ?_, fun up front rest hback hnames => ?_⟩
  · obtain ⟨content, -, hreached, -⟩ := (hmem names).mp hnames
    exact crossed_le hfolder hreached.pathNames hreached.found
  · obtain ⟨content, -, hreached, -⟩ := (hmem _).mp hnames
    obtain ⟨place, hspot, -⟩ := Disk.spotOf_of_find hreached.found
    exact ⟨place, hspot, hback.spotOf_eq hfolder hreached.pathNames hspot⟩

/-! ## A link to its own folder -/

section Example

/-- A source file, and a link to the folder in which both stand. -/
def loopDisk : Disk ByteArray where
  root := .folder [("A.java", .file "class A {}".toUTF8), ("loop", .link ".")]

/-- Options of a scan that follows links and has no rules. -/
def loopOptions : IndexOptions :=
  { excludeGlobs := [], useGitignore := false, followSymlinks := true }

/-- The names that lead to the source file through the link, a number of times. -/
def loopNames (n : Nat) : List String := List.replicate n "loop" ++ ["A.java"]

theorem loopDisk_named : loopDisk.root.Named := by
  refine Node.named_folder (by decide) fun e he => ?_
  rcases List.mem_cons.mp he with rfl | he
  · exact ⟨by decide, Node.named_file _⟩
  · obtain rfl := List.mem_singleton.mp he
    exact ⟨by decide, Node.named_link _⟩

theorem loopDisk_find : loopDisk.find (Path.text {}) = .ok loopDisk.root := by cbv

/-- A path of short names that is no longer than links are followed can be looked at. -/
theorem short_loop {names : List String} (hnames : ∀ s ∈ names, s.utf8ByteSize ≤ 6)
    (hlength : names.length ≤ maxLinks + 1) :
    (below {} names).text.utf8ByteSize ≤ maxPathBytes := by
  have hsum : (names.map String.utf8ByteSize).sum ≤ names.length * 6 := by
    have hle := List.sum_le_card_nsmul (names.map String.utf8ByteSize) 6 (by simpa using hnames)
    simpa using hle
  have htext := utf8ByteSize_text (below {} names)
  have hjoined : (joined (below {} names).names).utf8ByteSize =
      (names.map String.utf8ByteSize).sum + (names.length - 1) := utf8ByteSize_joined names
  have hanchor : (below {} names).anchor.text.utf8ByteSize = 0 := by
    change ("" : String).utf8ByteSize = 0
    decide
  rw [hjoined, hanchor] at htext
  change _ ≤ 4095
  change _ ≤ 41 at hlength
  omega

theorem leadsTo_loopDisk : loopDisk.LeadsTo {} 0 [] where
  text := by decide
  leads := by
    have hsteps : stepsOf (Path.text {}) = ["."] := by cbv
    have hstart : startOf (Path.text {}) loopDisk.cwd = [] := by cbv
    rw [hsteps, hstart]
    exact .goes (by rfl) (.stays [])
  few := Nat.zero_le _

theorem leads_loop {rest : List String} {n : Nat} {r : Spot}
    (h : Leads loopDisk.root true [] rest n r) :
    Leads loopDisk.root true [] ("loop" :: rest) (n + 1) r := by
  have hturn : turn loopDisk.root [] "loop" = .link "." := by rfl
  have hback : Leads loopDisk.root true (startOf "." []) (stepsOf "." ++ rest) n r := by
    rw [show startOf "." [] = [] by cbv, show stepsOf "." = ["."] by cbv]
    exact .goes (by rfl) h
  exact .jumps hturn (fun _ => rfl) (by decide) hback

/-- The link leads back to its folder, over one link for each time that it is named. -/
theorem leads_loopNames (n : Nat) :
    Leads loopDisk.root true [] (loopNames n) n (.present ["A.java"]) := by
  induction n with
  | zero => exact .goes (by rfl) (.stays _)
  | succ n ih => exact leads_loop ih

theorem entry_loop {c : String} {n : Node ByteArray}
    (h : [("A.java", .file "class A {}".toUTF8), ("loop", .link ".")].lookup c = some n) :
    c = "A.java" ∧ n = .file "class A {}".toUTF8 ∨ c = "loop" ∧ n = .link "." := by
  simpa using mem_of_lookup h

/-- Names that lead to a folder name the link all the way. -/
theorem eq_replicate_of_leads {names q : List String} {m : Nat}
    {es : List (String × Node ByteArray)}
    (hnames : ∀ s ∈ names, PathName s) (h : Leads loopDisk.root true [] names m (.present q))
    (hq : loopDisk.root.at? q = some (.folder es)) : q = [] ∧ names = List.replicate m "loop" := by
  induction names generalizing m with
  | nil =>
    cases h
    exact ⟨rfl, rfl⟩
  | cons c cs ih =>
    obtain ⟨hc, hcs⟩ := List.forall_mem_cons.mp hnames
    rw [← List.singleton_append] at h
    obtain ⟨m₁, m₂, p, rfl, hname, hrest⟩ := leads_append_present_iff.mp h
    have hroot : loopDisk.root.at? [] =
        some (.folder [("A.java", .file "class A {}".toUTF8), ("loop", .link ".")]) := rfl
    obtain ⟨k, hlookup⟩ := hname.entry hroot hc
    obtain ⟨rfl, -⟩ | ⟨rfl, -⟩ := entry_loop hlookup
    · -- a file has nothing below it and is no folder
      cases (hname.deterministic (leads_loopNames 0)).2
      cases cs with
      | nil =>
        cases hrest
        cases hq
      | cons d ds =>
        obtain ⟨es', hfile⟩ := hrest.folder_of_cons
        cases hfile
    · obtain ⟨rfl, hp⟩ := hname.deterministic (leads_loop (.stays []))
      cases hp
      obtain ⟨rfl, rfl⟩ := ih hcs hrest
      exact ⟨rfl, by rw [Nat.add_comm, List.replicate_succ]⟩

/-- No path on the disk is long. -/
theorem not_overlong_loop {names : List String} {n : Node ByteArray}
    (h : StandsBelow loopDisk {} names n) : ¬ Overlong {} [] loopOptions names n := by
  obtain ⟨front, c, es, rfl, hfind, hlookup⟩ := h.entry
  have hfront : ∀ s ∈ front, PathName s := fun s hs => h.pathNames s (List.mem_append_left _ hs)
  obtain ⟨-, m, q, hfew, hleads, hq⟩ := (leadsTo_loopDisk.find_iff hfront).mp hfind
  obtain ⟨rfl, rfl⟩ := eq_replicate_of_leads hfront hleads hq
  cases hq
  have hc : c.utf8ByteSize ≤ 6 := by
    obtain ⟨rfl, -⟩ | ⟨rfl, -⟩ := entry_loop hlookup <;> decide
  refine fun hlong => absurd hlong.long (not_lt.mpr (short_loop (fun s hs => ?_) ?_))
  · rcases List.mem_append.mp hs with hs | hs
    · obtain rfl := List.eq_of_mem_replicate hs
      decide
    · exact List.mem_singleton.mp hs ▸ hc
  · rw [List.length_append, List.length_replicate, List.length_singleton]
    omega

theorem leadsBack_loop : LeadsBack loopDisk {} [] ["loop"] where
  link := by
    have hat : loopDisk.root.at? ["loop"] = some (.link ".") := by rfl
    exact isLink_of_find (find_of_at? loopDisk_named loopDisk_find hat (List.cons_ne_nil _ _)
      (by decide) (.inl rfl))
  above := by decide
  same := ⟨[], (leadsTo_loopDisk.spotOf_iff_of_last (by simp)).mpr
      ⟨by decide, 0, by decide, .stays []⟩,
    (leadsTo_loopDisk.spotOf_iff_of_last (by decide)).mpr
      ⟨by decide, 1, by decide, leads_loop (.stays [])⟩⟩

theorem pathName_of_mem_loopNames {n : Nat} {s : String} (h : s ∈ loopNames n) : PathName s := by
  rcases List.mem_append.mp h with h | h
  · obtain rfl := List.eq_of_mem_replicate h
    decide
  · obtain rfl := List.mem_singleton.mp h
    decide

theorem pathText_loopNames {n : Nat} (hn : n ≤ maxLinks) :
    PathText (below {} (loopNames n)).text where
  nonempty := Disk.text_ne_empty_below (fun _ => pathName_of_mem_loopNames) (by simp [loopNames])
  short := by
    refine short_loop (fun s hs => ?_) (by simpa [loopNames] using hn)
    rcases List.mem_append.mp hs with hs | hs
    · obtain rfl := List.eq_of_mem_replicate hs
      decide
    · obtain rfl := List.mem_singleton.mp hs
      decide

/-- The source file is reached through its own folder as often as links are followed. -/
theorem reached_loopNames_iff (n : Nat) (content : ByteArray) :
    Reached loopDisk {} [] loopOptions (loopNames n) content ↔
      n ≤ maxLinks ∧ content = "class A {}".toUTF8 := by
  constructor
  · intro hreached
    obtain ⟨-, m, q, hfew, hleads, hq⟩ :=
      (leadsTo_loopDisk.find_iff hreached.pathNames).mp hreached.found
    obtain ⟨rfl, hspot⟩ := (leads_loopNames n).deterministic hleads
    cases hspot
    cases hq
    exact ⟨by omega, rfl⟩
  · rintro ⟨hn, rfl⟩
    refine ⟨?_, fun s => pathName_of_mem_loopNames, ?_, rfl, fun _ _ => rfl⟩
    · exact (leadsTo_loopDisk.find_iff fun s => pathName_of_mem_loopNames).mpr
        ⟨pathText_loopNames hn, n, ["A.java"], by omega, leads_loopNames n, rfl⟩
    · rw [loopNames, List.getLastD_eq_getLast?, List.getLast?_append_of_ne_nil _ (by simp)]
      decide

theorem scanRules_loop : scanRules id loopDisk {} loopOptions = .ok [] := rfl

theorem maxFileBytes_loop : loopOptions.maxFileBytes = .ok 2097152 := by decide

/-- A scan lists the file once for each number of times that the link can be followed, behind a
link that leads back to the folder in which the file stands. -/
theorem loop_unrolled :
    ∃ files log', (candidateFiles id loopDisk {} loopOptions).runOn [] = (.ok files, log') ∧
      LeadsBack loopDisk {} [] ["loop"] ∧ OnTheWay ["loop"] ["loop", "A.java"] ∧
      ["loop", "A.java"] ∈ files ∧ ∀ n, loopNames n ∈ files ↔ n ≤ maxLinks := by
  obtain ⟨files, log', hrun⟩ := exists_candidateFiles loopDisk_named loopDisk_find rfl
    scanRules_loop maxFileBytes_loop (fun _ _ => not_overlong_loop) []
  obtain ⟨-, hmem⟩ := mem_candidateFiles_iff loopDisk_named loopDisk_find rfl scanRules_loop hrun
  have hall (n : Nat) : loopNames n ∈ files ↔ n ≤ maxLinks := by
    rw [hmem]
    constructor
    · rintro ⟨content, limit, hreached, -⟩
      exact ((reached_loopNames_iff n content).mp hreached).1
    · intro hn
      exact ⟨_, _, (reached_loopNames_iff n _).mpr ⟨hn, rfl⟩, maxFileBytes_loop, by decide⟩
  exact ⟨files, log', hrun, leadsBack_loop, ⟨by simp, by simp, by simp⟩, (hall 1).mpr (by decide),
    hall⟩

/-- The scan of the folder with the loop: the file is listed, and the path through the link leads
to it as well. -/
theorem candidateFiles_over_links_loop :
    ∃ files log', (candidateFiles id loopDisk {} loopOptions).runOn [] = (.ok files, log') ∧
      ["A.java"] ∈ files ∧ ["loop", "A.java"] ∈ files ∧
      crossed loopDisk {} ["loop", "A.java"] ≤ maxLinks ∧
      ∃ place, loopDisk.spotOf (below {} ["loop", "A.java"]).text = .ok (.present place) ∧
        loopDisk.spotOf (below {} ["A.java"]).text = .ok (.present place) := by
  obtain ⟨hreturns, -, hall⟩ := candidateFiles_over_links (o := loopOptions) loopDisk_named
    loopDisk_find rfl scanRules_loop []
  obtain ⟨files, log', hrun⟩ := hreturns _ maxFileBytes_loop fun _ _ => not_overlong_loop
  obtain ⟨-, hmem, hcrossed, hback⟩ := hall files log' hrun
  have hlisted (n : Nat) (hn : n ≤ maxLinks) : loopNames n ∈ files :=
    (hmem _).mpr ⟨_, _, (reached_loopNames_iff n _).mpr ⟨hn, rfl⟩, maxFileBytes_loop, by decide⟩
  have hthrough : ["loop", "A.java"] ∈ files := hlisted 1 (by decide)
  exact ⟨files, log', hrun, hlisted 0 (by decide), hthrough, hcrossed _ hthrough,
    hback [] ["loop"] ["A.java"] leadsBack_loop hthrough⟩

end Example

end SourceShelf
