import Mathlib
import SourceShelf.Proofs.Files.Links

/-!
# Which files are candidates

A scan that follows no links finds just the files below a folder that pass the rules
(`Wanted`) and are not too large, sorted by their paths.  If the limit on sizes is no
number of bytes, the scan fails as soon as there is a file that passes the rules.  It fails as
well if something passes them that has a path too long to be looked at (`Overlong`).

* `Walk.mem_filesIn_cons`: one step of a walk, whether it follows links or not.
* `Walk.mem_filesIn`: what a walk meets, by induction along the names.
* `judge_link`, `judge_found`: what becomes of it.
* `candidateFiles_cases`: a scan judges all that is listed, or fails.
* `candidateFiles_of_overlong`, `candidateFiles_of_limit`, `candidateFiles_of_wanted`,
  `candidateFiles_of_none`: what comes of a scan.
* `candidateFiles_exact`: all of it.
-/

namespace SourceShelf

open Files SourceShelf.Action

/-! ## The walk -/

/-- A folder on the way to a file. -/
def OnTheWay (front names : List String) : Prop := front ≠ [] ∧ front <+: names ∧ front ≠ names

theorem forall_onTheWay_cons {P : List String → Prop} {c : String} {cs : List String} :
    (∀ front, OnTheWay front (c :: cs) → P front) ↔
      (cs ≠ [] → P [c]) ∧ ∀ front, OnTheWay front cs → P (c :: front) := by
  constructor
  · intro h
    refine ⟨fun hcs => h [c] ⟨by simp, ⟨cs, rfl⟩, by simpa using hcs.symm⟩, ?_⟩
    rintro front ⟨-, hprefix, hne⟩
    exact h _ ⟨by simp, List.cons_prefix_cons.mpr ⟨rfl, hprefix⟩, by simpa using hne⟩
  · rintro ⟨hfirst, hrest⟩ front ⟨hnil, hprefix, hne⟩
    obtain ⟨d, front, rfl⟩ := List.exists_cons_of_ne_nil hnil
    obtain ⟨rfl, hbelow⟩ := List.cons_prefix_cons.mp hprefix
    by_cases hempty : front = []
    · subst hempty
      exact hfirst fun hcs => hne (by rw [hcs])
    · exact hrest front ⟨hempty, hbelow, fun h => hne (by rw [h])⟩

namespace Walk

variable {α : Type} {w : Walk} {jump : List String → List (List String)}

/-- What stands at a place is listed by a walk that comes there. -/
def Meets (w : Walk) (place : List String) : Node α → Prop
  | .file _ => True
  | .folder _ => False
  | .link _ => w.isFolder place = false

theorem countsAsFolder_eq_false {here : List String} {e : String × Node α} :
    w.countsAsFolder here e = false ↔ w.Meets (here ++ [e.1]) e.2 := by
  obtain ⟨name, n⟩ := e
  cases n <;> simp [countsAsFolder, Meets]

/-- A file is listed below a place: in the folder that stands there, or behind the link. -/
def Enters (w : Walk) (jump : List String → List (List String)) (place f : List String) :
    Node α → Prop
  | .file _ => False
  | .folder entries => w.isFolder place = true ∧ f ∈ filesIn w jump place (.folder entries)
  | .link _ => w.isFolder place = true ∧ w.followsLinks = true ∧ f ∈ jump place

theorem mem_filesInEach {here f : List String} {entries : List (String × Node α)} :
    f ∈ filesInEach w jump here entries ↔ ∃ name n, (name, n) ∈ entries ∧
      w.isPruned (here ++ [name]) = false ∧ w.Enters jump (here ++ [name]) f n := by
  induction entries with
  | nil => simp [filesInEach]
  | cons e entries ih =>
    obtain ⟨name, n⟩ := e
    have hstep : f ∈ filesInEach w jump here ((name, n) :: entries) ↔
        (w.isPruned (here ++ [name]) = false ∧ w.Enters jump (here ++ [name]) f n) ∨
          f ∈ filesInEach w jump here entries := by
      conv_lhs => unfold filesInEach
      rw [List.mem_append]
      refine or_congr_left ?_
      cases hpruned : w.isPruned (here ++ [name]) <;> cases n with
      | file content => simp [countsAsFolder, Enters]
      | folder es => cases hfolder : w.isFolder (here ++ [name]) <;>
          simp [countsAsFolder, Enters, hfolder]
      | link target =>
        cases hfolder : w.isFolder (here ++ [name]) <;> cases hlinks : w.followsLinks <;>
          simp [countsAsFolder, Enters, hfolder, hlinks]
    rw [hstep, ih]
    constructor
    · rintro (h | ⟨name', n', hmem, h⟩)
      · exact ⟨name, n, List.mem_cons_self, h⟩
      · exact ⟨name', n', List.mem_cons_of_mem _ hmem, h⟩
    · rintro ⟨name', n', hmem, h⟩
      rcases List.mem_cons.mp hmem with heq | hmem
      · cases heq
        exact .inl h
      · exact .inr ⟨name', n', hmem, h⟩

/-- What a walk lists in a folder, by the first name behind it: a file, or what it lists below a
folder or a link that is not pruned. -/
theorem mem_filesIn_cons (hjump : ∀ place, Listed place (jump place))
    {entries : List (String × Node α)} (htidy : (Node.folder entries).Tidy) (here : List String)
    (c : String) (cs : List String) :
    here ++ c :: cs ∈ filesIn w jump here (.folder entries) ↔
      ∃ n, entries.lookup c = some n ∧ (cs = [] ∧ w.Meets (here ++ [c]) n ∨
        cs ≠ [] ∧ w.isPruned (here ++ [c]) = false ∧
          w.Enters jump (here ++ [c]) (here ++ [c] ++ cs) n) := by
  obtain ⟨hnames, -⟩ := htidy [] entries rfl
  have hplace : here ++ c :: cs = (here ++ [c]) ++ cs := by simp
  have hfiles : (here ++ c :: cs ∈ (entries.filter fun e => !w.countsAsFolder here e).map
      fun e => here ++ [e.1]) ↔
      ∃ n, entries.lookup c = some n ∧ cs = [] ∧ w.Meets (here ++ [c]) n := by
    simp only [List.mem_map, List.mem_filter, Bool.not_eq_true', countsAsFolder_eq_false,
      List.append_cancel_left_eq, List.cons.injEq]
    constructor
    · rintro ⟨e, ⟨he, hmeets⟩, rfl, rfl⟩
      exact ⟨e.2, lookup_of_mem hnames he, rfl, hmeets⟩
    · rintro ⟨n, hn, rfl, hmeets⟩
      exact ⟨(c, n), ⟨mem_of_lookup hn, hmeets⟩, rfl, rfl⟩
  -- what is listed below another name starts with that name
  have hbelow {name : String} {n : Node α} (he : (name, n) ∈ entries)
      (h : w.Enters jump (here ++ [name]) (here ++ c :: cs) n) : c = name ∧ cs ≠ [] := by
    have hlisted : ∃ files, Listed (here ++ [name]) files ∧ here ++ c :: cs ∈ files := by
      cases n with
      | file _ => exact h.elim
      | folder es => exact ⟨_, filesIn_listed hjump _ _ (htidy.entry he), h.2⟩
      | link _ => exact ⟨_, hjump _, h.2.2⟩
    obtain ⟨files, hlisted, hmem⟩ := hlisted
    obtain ⟨rest, hrest, heq, -⟩ := hlisted.below _ hmem
    obtain ⟨rfl, rfl⟩ : c = name ∧ cs = rest := by simpa using heq
    exact ⟨rfl, hrest⟩
  rw [filesIn, List.mem_append, hfiles, mem_filesInEach]
  constructor
  · rintro (⟨n, hn, h⟩ | ⟨name, n, he, hopen, h⟩)
    · exact ⟨n, hn, .inl h⟩
    · obtain ⟨rfl, hcs⟩ := hbelow he h
      exact ⟨n, lookup_of_mem hnames he, .inr ⟨hcs, hopen, hplace ▸ h⟩⟩
  · rintro ⟨n, hn, h | ⟨-, hopen, h⟩⟩
    · exact .inl ⟨n, hn, h⟩
    · exact .inr ⟨c, n, mem_of_lookup hn, hopen, hplace ▸ h⟩

/-- A place itself is not listed among the files below it. -/
theorem not_mem_filesIn (hjump : ∀ place, Listed place (jump place))
    {entries : List (String × Node α)} (htidy : (Node.folder entries).Tidy) (here : List String) :
    here ++ [] ∉ filesIn w jump here (.folder entries) := by
  intro h
  obtain ⟨rest, hrest, heq, -⟩ := (filesIn_listed hjump here _ htidy).below _ h
  exact hrest (List.append_cancel_left heq).symm

/-- A walk that follows no links lists what it meets where each folder on the way is entered and
none is pruned. -/
theorem mem_filesIn (hlinks : w.followsLinks = false)
    (hjump : ∀ place, Listed place (jump place)) {entries : List (String × Node α)}
    (htidy : (Node.folder entries).Tidy) (here names : List String) :
    here ++ names ∈ filesIn w jump here (.folder entries) ↔
      (∃ m, (Node.folder entries).at? names = some m ∧ w.Meets (here ++ names) m) ∧
        ∀ front, OnTheWay front names →
          w.isPruned (here ++ front) = false ∧ w.isFolder (here ++ front) = true := by
  induction names generalizing here entries with
  | nil =>
    refine iff_of_false (not_mem_filesIn hjump htidy here) ?_
    rintro ⟨⟨m, hm, hmeets⟩, -⟩
    cases hm
    exact hmeets
  | cons c cs ih =>
    have hplace : here ++ c :: cs = (here ++ [c]) ++ cs := by simp
    have hat : (Node.folder entries).at? (c :: cs) = (entries.lookup c).bind (·.at? cs) := rfl
    rw [forall_onTheWay_cons, mem_filesIn_cons hjump htidy, hat]
    constructor
    · rintro ⟨m, hm, ⟨rfl, hmeets⟩ | ⟨-, hopen, hbelow⟩⟩
      · refine ⟨⟨m, by rw [hm]; rfl, hmeets⟩, fun hcs => absurd rfl hcs, ?_⟩
        rintro front ⟨hnil, hprefix, -⟩
        exact absurd (List.prefix_nil.mp hprefix) hnil
      · cases m with
        | file _ => exact hbelow.elim
        | link _ => exact absurd hbelow.2.1 (by simp [hlinks])
        | folder es =>
          obtain ⟨⟨m, hrest, hmeets⟩, hfree⟩ :=
            (ih (htidy.entry (mem_of_lookup hm)) (here ++ [c])).mp hbelow.2
          refine ⟨⟨m, by rw [hm]; exact hrest, hplace ▸ hmeets⟩, fun _ => ⟨hopen, hbelow.1⟩,
            fun front hfront => ?_⟩
          simpa using hfree front hfront
    · rintro ⟨⟨m, hm, hmeets⟩, hfirst, hfree⟩
      obtain ⟨k, hk, hrest⟩ := Option.bind_eq_some_iff.mp hm
      refine ⟨k, hk, ?_⟩
      cases cs with
      | nil =>
        cases hrest
        exact .inl ⟨rfl, hmeets⟩
      | cons d cs =>
        obtain ⟨es, rfl⟩ := Node.folder_of_at?_cons hrest
        obtain ⟨hopen, hfolder⟩ := hfirst (List.cons_ne_nil d cs)
        refine .inr ⟨List.cons_ne_nil d cs, hopen, hfolder, ?_⟩
        refine (ih (htidy.entry (mem_of_lookup hk)) (here ++ [c])).mpr
          ⟨⟨m, hrest, hplace ▸ hmeets⟩, fun front hfront => ?_⟩
        simpa using hfree front hfront

end Walk

section Scan

variable {α : Type} {bytesOf : α → ByteArray} {t : Disk α} {folder : Path} {rules : Ignore.Rules}
variable {o : IndexOptions} {names : List String} {entries : List (String × Node α)}

/-- What stands below a folder is found there, if its path is not too long. -/
theorem find_of_at? (htree : t.root.Named) (hfolder : t.find folder.text = .ok (.folder entries))
    {m : Node α} (hm : (Node.folder entries).at? names = some m) (hne : names ≠ [])
    (htext : PathText (below folder names).text) {last : Bool}
    (hlink : last = false ∨ ∀ target, m ≠ .link target) :
    t.find (below folder names).text last = .ok m := by
  obtain ⟨place, -, hplace⟩ := Disk.spotOf_of_find hfolder
  exact Disk.find_below hfolder hm ((htree.at? hplace).pathNames hm) hne htext hlink

theorem pathNames_of_at? (htree : t.root.Named)
    (hfolder : t.find folder.text = .ok (.folder entries)) {m : Node α}
    (hm : (Node.folder entries).at? names = some m) : ∀ s ∈ names, PathName s := by
  obtain ⟨place, -, hplace⟩ := Disk.spotOf_of_find hfolder
  exact (htree.at? hplace).pathNames hm

/-- A folder on the way is entered if its path is not too long. -/
theorem isFolder_onTheWay (htree : t.root.Named)
    (hfolder : t.find folder.text = .ok (.folder entries)) {m : Node α}
    (hm : (Node.folder entries).at? names = some m) {front : List String}
    (hfront : OnTheWay front names) :
    t.isFolder (below folder front) = true ↔ PathText (below folder front).text := by
  constructor
  · intro h
    obtain ⟨es, hfind⟩ := Disk.exists_find_of_isFolder h
    exact Disk.pathText_of_find hfind
  · intro htext
    obtain ⟨hne, ⟨rest, rfl⟩, hproper⟩ := hfront
    rw [Node.at?_append] at hm
    obtain ⟨k, hk, hrest⟩ := Option.bind_eq_some_iff.mp hm
    obtain ⟨d, ds, rfl⟩ : ∃ d ds, rest = d :: ds :=
      List.exists_cons_of_ne_nil fun hnil => hproper (by rw [hnil, List.append_nil])
    obtain ⟨es, rfl⟩ := Node.folder_of_at?_cons hrest
    rw [Disk.isFolder, find_of_at? htree hfolder hk hne htext (.inr fun target heq => by cases heq)]

/-- What a scan looks at: files, and links to no folders, of which no folder on the way
is ignored or has a path that is too long. -/
theorem mem_filesBelow (htree : t.root.Named)
    (hfolder : t.find folder.text = .ok (.folder entries)) :
    names ∈ filesBelow t folder rules false ↔
      (∃ m, (Node.folder entries).at? names = some m ∧ ((∃ content, m = .file content) ∨
        ∃ target, m = .link target ∧ t.isFolder (below folder names) = false)) ∧
      ∀ front, OnTheWay front names →
        rules.ignores (joined front ++ "/") = false ∧ PathText (below folder front).text := by
  have htidy : ∀ place n, (t.find (below folder place).text).toOption = some n → n.Tidy :=
    fun _ _ hn => Disk.tidy_of_toOption_find htree.tidy hn
  have hroot : (Node.folder entries).Tidy := htidy [] _ (by rw [below_nil, hfolder]; rfl)
  unfold filesBelow
  dsimp only
  rw [Walk.filesAt, below_nil, hfolder]
  refine (Walk.mem_filesIn rfl (Walk.filesAt_listed htidy maxLinks) hroot [] names).trans ?_
  have hmeets (m : Node α) (w : Walk)
      (hw : w.isFolder = fun names => t.isFolder (below folder names)) :
      w.Meets names m ↔ (∃ content, m = .file content) ∨
        ∃ target, m = .link target ∧ t.isFolder (below folder names) = false := by
    cases m <;> simp [Walk.Meets, hw]
  constructor
  · rintro ⟨⟨m, hm, h⟩, hway⟩
    exact ⟨⟨m, hm, (hmeets m _ rfl).mp h⟩, fun front hfront =>
      ⟨(hway front hfront).1, (isFolder_onTheWay htree hfolder hm hfront).mp (hway front hfront).2⟩⟩
  · rintro ⟨⟨m, hm, h⟩, hway⟩
    exact ⟨⟨m, hm, (hmeets m _ rfl).mpr h⟩, fun front hfront =>
      ⟨(hway front hfront).1,
        (isFolder_onTheWay htree hfolder hm hfront).mpr (hway front hfront).2⟩⟩

/-! ## What becomes of a file -/

/-- A file below a folder that passes the rules: its suffix is looked for, no rule
ignores it, and none ignores a folder on the way to it. -/
structure Wanted (n : Node α) (rules : Ignore.Rules) (o : IndexOptions) (names : List String)
    (content : α) : Prop where
  stands : n.at? names = some (.file content)
  suffix : lowercase (Path.suffixOf (names.getLastD "")) ∈ o.suffixes
  kept : rules.ignores (joined names) = false
  reached : ∀ front, OnTheWay front names → rules.ignores (joined front ++ "/") = false

/-- Something below a folder that passes the rules and is no folder, with a path of its own that is
too long to be looked at, while those of the folders on the way are not. -/
structure Overlong (folder : Path) (rules : Ignore.Rules) (o : IndexOptions) (names : List String)
    (m : Node α) : Prop where
  noFolder : ∀ es, m ≠ .folder es
  suffix : lowercase (Path.suffixOf (names.getLastD "")) ∈ o.suffixes
  kept : rules.ignores (joined names) = false
  reached : ∀ front, OnTheWay front names →
    rules.ignores (joined front ++ "/") = false ∧ PathText (below folder front).text
  long : maxPathBytes < (below folder names).text.utf8ByteSize

/-- Only what has a suffix that is looked for and is not ignored is looked at. -/
theorem judge_eq (hne : names ≠ []) :
    judge bytesOf t folder rules o names =
      if lowercase (Path.suffixOf (names.getLastD "")) ∈ o.suffixes ∧
          rules.ignores (joined names) = false then
        match isLink t (below folder names) with
        | .error _ => .error (.longPath (below folder names).text)
        | .ok link =>
          if link && !o.followSymlinks then .ok { kept := false }
          else
            match fileSize bytesOf t (below folder names) with
            | .error e =>
              .ok { kept := false
                    log := [.warning ("Skipping " ++ (below folder names).text ++ ": " ++
                      e.message (below folder names).text)] }
            | .ok size =>
              o.maxFileBytes.map fun limit =>
                if limit < size then
                  { kept := false
                    log := [.info ("Skipping " ++ (below folder names).text ++ ": larger than " ++
                      Decimal.fixed 1 o.maxFileMb ++ " MB")] }
                else { kept := true }
      else .ok { kept := false } := by
  have hsuffix : (below folder names).suffix = Path.suffixOf (names.getLastD "") := by
    rw [Path.suffix, Path.name, below, List.getLastD_eq_getLast?, List.getLastD_eq_getLast?,
      List.getLast?_append_of_ne_nil _ hne]
  unfold judge
  dsimp only
  rw [hsuffix]
  by_cases hpass : lowercase (Path.suffixOf (names.getLastD "")) ∈ o.suffixes ∧
      rules.ignores (joined names) = false
  · have hlooked := List.contains_iff_mem.mpr hpass.1
    rw [if_pos hpass, hlooked, hpass.2]
    rfl
  · rw [if_neg hpass, if_pos]
    rw [Bool.or_eq_true, Bool.not_eq_true', List.contains_eq_mem, decide_eq_false_iff_not]
    by_contra h
    rw [not_or, not_not, Bool.not_eq_true] at h
    exact hpass h

/-- True of a link. -/
def Files.Node.isLink : Node α → Bool
  | .link _ => true
  | _ => false

theorem isLink_of_find {n : Node α} {p : Path} (hfind : t.find p.text false = .ok n) :
    isLink t p = .ok n.isLink := by
  rw [isLink, Disk.look, hfind]
  cases n <;> rfl

theorem isLink_of_long {p : Path} (hlong : maxPathBytes < p.text.utf8ByteSize) :
    isLink t p = .error .nameTooLong := by
  rw [isLink, Disk.look, Disk.find_of_long hlong]
  rfl

/-- A link is passed over. -/
theorem judge_link (hne : names ≠ []) (hlinks : o.followSymlinks = false) {target : String}
    (hfind : t.find (below folder names).text false = .ok (.link target)) :
    judge bytesOf t folder rules o names = .ok { kept := false } := by
  rw [judge_eq hne, isLink_of_find hfind, hlinks]
  split <;> rfl

/-- A path that passes the rules and is too long is an error. -/
theorem Overlong.judge_eq (bytesOf : α → ByteArray) (t : Disk α) {m : Node α}
    (h : Overlong folder rules o names m) (hne : names ≠ []) :
    judge bytesOf t folder rules o names = .error (.longPath (below folder names).text) := by
  rw [SourceShelf.judge_eq hne, if_pos ⟨h.suffix, h.kept⟩, isLink_of_long h.long]

/-- A file that is found is kept if it has a suffix that is looked for, is not ignored and is not
too large; one behind a link only by a scan that follows links. -/
theorem judge_found {content : α} (hne : names ≠ []) {link : Bool}
    (hisLink : isLink t (below folder names) = .ok link)
    (hlink : (link && !o.followSymlinks) = false)
    (hfind : t.find (below folder names).text = .ok (.file content)) :
    judge bytesOf t folder rules o names =
      if lowercase (Path.suffixOf (names.getLastD "")) ∈ o.suffixes ∧
          rules.ignores (joined names) = false then
        o.maxFileBytes.map fun limit =>
          if limit < ((bytesOf content).size : Int) then
            { kept := false
              log := [.info ("Skipping " ++ (below folder names).text ++ ": larger than " ++
                Decimal.fixed 1 o.maxFileMb ++ " MB")] }
          else { kept := true }
      else .ok { kept := false } := by
  have hsize : fileSize bytesOf t (below folder names) = .ok ((bytesOf content).size : Int) := by
    rw [fileSize, hfind]
    rfl
  rw [judge_eq hne, hisLink, hsize]
  dsimp only
  rw [hlink, if_neg Bool.false_ne_true]

/-! ## The scan -/

/-- True of a verdict that keeps a file. -/
def keeps (r : Except LimitError Verdict) : Bool :=
  match r with
  | .ok v => v.kept
  | .error _ => false

/-- All files are judged, or the first that cannot be judged ends it. -/
theorem keptFiles_cases (judge : List String → Except LimitError Verdict)
    (files : List (List String)) (log : List LogRecord) :
    ((∀ names ∈ files, ∃ v, judge names = .ok v) ∧
      ((keptFiles judge files).runOn log).1 = .ok (files.filter fun names => keeps (judge names))) ∨
    ∃ names ∈ files, ∃ e, judge names = .error e ∧
      ((keptFiles judge files).runOn log).1 = .error (.limit e) := by
  induction files generalizing log with
  | nil => exact .inl ⟨by simp, rfl⟩
  | cons names files ih =>
    unfold keptFiles
    rcases hjudge : judge names with e | v
    · refine .inr ⟨names, List.mem_cons_self, e, hjudge, ?_⟩
      rw [runOn_bind_of_error (by rw [runOn_ofExcept]; rfl)]
    · rw [runOn_bind_of_ok (x := v) (by rw [runOn_ofExcept]; rfl),
        runOn_bind_of_ok (runOn_modify _ _)]
      have hnext := ih (log ++ v.log)
      rcases hrest : (keptFiles judge files).runOn (log ++ v.log) with ⟨r, log'⟩
      rw [hrest] at hnext
      rcases hnext with ⟨hall, rfl⟩ | ⟨names', hmem, e, he, rfl⟩
      · rw [runOn_bind_of_ok hrest]
        refine .inl ⟨fun names' hmem => ?_, ?_⟩
        · rcases List.mem_cons.mp hmem with rfl | hmem
          · exact ⟨v, hjudge⟩
          · exact hall names' hmem
        · rw [List.filter_cons, hjudge]
          rfl
      · rw [runOn_bind_of_error hrest]
        exact .inr ⟨names', List.mem_cons_of_mem _ hmem, e, he, rfl⟩

/-- Files sorted by paths that differ are in strictly ascending order. -/
theorem pairwise_lt_mergeSort {files : List (List String)} (h : (files.map joined).Nodup) :
    ((files.mergeSort fun a b => !(joined b < joined a)).map joined).Pairwise (· < ·) := by
  have hsorted : (files.mergeSort fun a b => !(joined b < joined a)).Pairwise
      fun a b => (!decide (joined b < joined a)) = true := by
    refine List.pairwise_mergeSort (fun a b c hab hbc => ?_) (fun a b => ?_) _
    · simp only [Bool.not_eq_true', decide_eq_false_iff_not, not_lt] at hab hbc ⊢
      exact le_trans hab hbc
    · simp only [Bool.or_eq_true, Bool.not_eq_true', decide_eq_false_iff_not, not_lt]
      exact le_total _ _
  have hdistinct : ((files.mergeSort fun a b => !(joined b < joined a)).map joined).Nodup :=
    ((List.mergeSort_perm files _).map joined).nodup_iff.mpr h
  rw [List.Nodup, List.pairwise_map] at hdistinct
  rw [List.pairwise_map]
  refine (hsorted.and hdistinct).imp fun {a b} hab => lt_of_le_of_ne (not_lt.mp ?_) hab.2
  simpa only [Bool.not_eq_true', decide_eq_false_iff_not] using hab.1

/-- A scan keeps the files that are judged so, in the order of their paths, or it fails at one
that cannot be judged. -/
theorem candidateFiles_cases
    (hrules : scanRules bytesOf t folder o = .ok rules) (log : List LogRecord) :
    ((∀ names ∈ filesBelow t folder rules o.followSymlinks,
        ∃ v, judge bytesOf t folder rules o names = .ok v) ∧
      ∃ log', (candidateFiles bytesOf t folder o).runOn log =
        (.ok (((filesBelow t folder rules o.followSymlinks).filter fun names =>
          keeps (judge bytesOf t folder rules o names)).mergeSort
            fun a b => !(joined b < joined a)), log')) ∨
    ∃ names ∈ filesBelow t folder rules o.followSymlinks, ∃ e,
      judge bytesOf t folder rules o names = .error e ∧
        ((candidateFiles bytesOf t folder o).runOn log).1 = .error (.limit e) := by
  have hrun : (candidateFiles bytesOf t folder o).runOn log =
      ((keptFiles (judge bytesOf t folder rules o) (filesBelow t folder rules o.followSymlinks) >>=
        fun kept => (return kept.mergeSort fun a b => !(joined b < joined a) :
          Action (List LogRecord) ScanError (List (List String)))).runOn log) := by
    unfold candidateFiles
    rw [runOn_bind_of_ok (by rw [hrules, runOn_ofExcept])]
  have hcases := keptFiles_cases (judge bytesOf t folder rules o)
    (filesBelow t folder rules o.followSymlinks) log
  rcases hkept : (keptFiles (judge bytesOf t folder rules o)
    (filesBelow t folder rules o.followSymlinks)).runOn log with ⟨r, log'⟩
  rw [hkept] at hcases
  rcases hcases with ⟨hall, rfl⟩ | ⟨names, hmem, e, he, rfl⟩
  · rw [runOn_bind_of_ok hkept] at hrun
    exact .inl ⟨hall, log', hrun⟩
  · rw [runOn_bind_of_error hkept] at hrun
    exact .inr ⟨names, hmem, e, he, congrArg Prod.fst hrun⟩

/-- A file that passes the rules is judged by its size alone. -/
theorem Wanted.judge_eq (bytesOf : α → ByteArray) (htree : t.root.Named)
    (hfolder : t.find folder.text = .ok (.folder entries)) {content : α}
    (h : Wanted (.folder entries) rules o names content)
    (htext : PathText (below folder names).text) :
    match o.maxFileBytes with
    | .error e => judge bytesOf t folder rules o names = .error e
    | .ok limit => ∃ v, judge bytesOf t folder rules o names = .ok v ∧
        (v.kept = true ↔ ((bytesOf content).size : Int) ≤ limit) := by
  have hne : names ≠ [] := by
    rintro rfl
    cases h.stands
  have hfind (last : Bool) : t.find (below folder names).text last = .ok (.file content) :=
    find_of_at? htree hfolder h.stands hne htext (.inr fun target => by simp)
  rw [judge_found hne (isLink_of_find (hfind false)) rfl (hfind true), if_pos ⟨h.suffix, h.kept⟩]
  rcases o.maxFileBytes with e | limit
  · rfl
  · refine ⟨_, rfl, ?_⟩
    dsimp only
    split
    · rename_i hlarge
      simpa using hlarge
    · rename_i hsmall
      simpa using hsmall

/-- Whatever else a scan looks at is passed over. -/
theorem judge_of_not_wanted (htree : t.root.Named)
    (hfolder : t.find folder.text = .ok (.folder entries)) (hlinks : o.followSymlinks = false)
    (hmem : names ∈ filesBelow t folder rules false)
    (hshort : ∀ m, (Node.folder entries).at? names = some m → ¬ Overlong folder rules o names m)
    (h : ¬ ∃ content, Wanted (.folder entries) rules o names content ∧
      PathText (below folder names).text) :
    judge bytesOf t folder rules o names = .ok { kept := false } := by
  obtain ⟨⟨m, hm, hkind⟩, hreached⟩ := (mem_filesBelow htree hfolder).mp hmem
  have hnoFolder : ∀ es, m ≠ .folder es := by
    rintro es rfl
    obtain ⟨_, h⟩ | ⟨_, h, -⟩ := hkind <;> cases h
  have hne : names ≠ [] := by
    rintro rfl
    cases hm
    exact hnoFolder _ rfl
  by_cases hpass : lowercase (Path.suffixOf (names.getLastD "")) ∈ o.suffixes ∧
      rules.ignores (joined names) = false
  · have htext : PathText (below folder names).text :=
      ⟨Disk.text_ne_empty_below (pathNames_of_at? htree hfolder hm) hne, not_lt.mp fun hlong =>
        hshort m hm ⟨hnoFolder, hpass.1, hpass.2, hreached, hlong⟩⟩
    obtain ⟨content, rfl⟩ | ⟨target, rfl, -⟩ := hkind
    · exact absurd ⟨content, ⟨hm, hpass.1, hpass.2, fun front hfront => (hreached front hfront).1⟩,
        htext⟩ h
    · exact judge_link hne hlinks (find_of_at? htree hfolder hm hne htext (.inl rfl))
  · rw [SourceShelf.judge_eq hne, if_neg hpass]

/-- A file that passes the rules is looked at. -/
theorem Wanted.mem_filesBelow (htree : t.root.Named)
    (hfolder : t.find folder.text = .ok (.folder entries)) {content : α}
    (h : Wanted (.folder entries) rules o names content)
    (htext : PathText (below folder names).text) : names ∈ filesBelow t folder rules false :=
  (SourceShelf.mem_filesBelow htree hfolder).mpr ⟨⟨_, h.stands, .inl ⟨content, rfl⟩⟩,
    fun front hfront => ⟨h.reached front hfront, Disk.pathText_below_of_sublist hfront.2.1.sublist
      (pathNames_of_at? htree hfolder h.stands) hfront.1 htext⟩⟩

/-- What passes the rules and has a path that is too long is looked at. -/
theorem Overlong.mem_filesBelow (htree : t.root.Named)
    (hfolder : t.find folder.text = .ok (.folder entries)) {m : Node α}
    (hm : (Node.folder entries).at? names = some m) (h : Overlong folder rules o names m) :
    names ∈ filesBelow t folder rules false := by
  refine (SourceShelf.mem_filesBelow htree hfolder).mpr ⟨⟨m, hm, ?_⟩, h.reached⟩
  cases m with
  | file content => exact .inl ⟨content, rfl⟩
  | folder es => exact absurd rfl (h.noFolder es)
  | link target =>
    refine .inr ⟨target, rfl, ?_⟩
    rw [Disk.isFolder, Disk.find_of_long h.long]

/-- A file cannot be judged if its path is too long, or if it passes the rules and the limit is no
number of bytes. -/
theorem judge_error_cases (htree : t.root.Named)
    (hfolder : t.find folder.text = .ok (.folder entries)) (hlinks : o.followSymlinks = false)
    (hmem : names ∈ filesBelow t folder rules false) {e : LimitError}
    (h : judge bytesOf t folder rules o names = .error e) :
    (∃ m, (Node.folder entries).at? names = some m ∧ Overlong folder rules o names m ∧
        e = .longPath (below folder names).text) ∨
      o.maxFileBytes = .error e ∧ ∃ content, Wanted (.folder entries) rules o names content ∧
        PathText (below folder names).text := by
  by_cases hlong : ∃ m, (Node.folder entries).at? names = some m ∧ Overlong folder rules o names m
  · obtain ⟨m, hm, hlong⟩ := hlong
    have hne : names ≠ [] := by
      rintro rfl
      cases hm
      exact hlong.noFolder entries rfl
    rw [hlong.judge_eq bytesOf t hne] at h
    exact .inl ⟨m, hm, hlong, (Except.error.inj h).symm⟩
  · by_cases hwanted : ∃ content, Wanted (.folder entries) rules o names content ∧
        PathText (below folder names).text
    · refine .inr ⟨?_, hwanted⟩
      obtain ⟨content, hwanted, htext⟩ := hwanted
      have hjudge := hwanted.judge_eq bytesOf htree hfolder htext
      rcases hlimit : o.maxFileBytes with e' | limit
      · rw [hlimit] at hjudge
        cases hjudge.symm.trans h
        rfl
      · rw [hlimit] at hjudge
        obtain ⟨v, hv, -⟩ := hjudge
        rw [hv] at h
        cases h
    · rw [judge_of_not_wanted htree hfolder hlinks hmem (fun m hm hm' => hlong ⟨m, hm, hm'⟩)
        hwanted] at h
      cases h

/-- What is kept passes the rules and is not too large. -/
theorem keeps_iff (htree : t.root.Named)
    (hfolder : t.find folder.text = .ok (.folder entries)) (hlinks : o.followSymlinks = false)
    (hmem : names ∈ filesBelow t folder rules false)
    (hshort : ∀ m, (Node.folder entries).at? names = some m → ¬ Overlong folder rules o names m)
    {limit : Int} (hlimit : o.maxFileBytes = .ok limit) :
    keeps (judge bytesOf t folder rules o names) = true ↔
      ∃ content, Wanted (.folder entries) rules o names content ∧
        PathText (below folder names).text ∧ ((bytesOf content).size : Int) ≤ limit := by
  by_cases hwanted : ∃ content, Wanted (.folder entries) rules o names content ∧
      PathText (below folder names).text
  · obtain ⟨content, hwanted, htext⟩ := hwanted
    have hjudge := hwanted.judge_eq bytesOf htree hfolder htext
    rw [hlimit] at hjudge
    obtain ⟨v, hv, hkept⟩ := hjudge
    rw [hv, keeps, hkept]
    constructor
    · exact fun hsize => ⟨content, hwanted, htext, hsize⟩
    · rintro ⟨content', hwanted', -, hsize⟩
      have hsame : Node.file content = .file content' :=
        Option.some_inj.mp (hwanted.stands.symm.trans hwanted'.stands)
      cases hsame
      exact hsize
  · rw [judge_of_not_wanted htree hfolder hlinks hmem hshort hwanted]
    refine iff_of_false Bool.false_ne_true ?_
    rintro ⟨content, h, htext, -⟩
    exact hwanted ⟨content, h, htext⟩

section Results

variable (htree : t.root.Named) (hfolder : t.find folder.text = .ok (.folder entries))
  (hlinks : o.followSymlinks = false) (hrules : scanRules bytesOf t folder o = .ok rules)
  (log : List LogRecord)

include htree hfolder hlinks hrules

/-- A scan fails if something passes the rules and has a path that is too long. -/
theorem candidateFiles_of_overlong {m : Node α} (hm : (Node.folder entries).at? names = some m)
    (hlong : Overlong folder rules o names m) :
    ∃ e, ((candidateFiles bytesOf t folder o).runOn log).1 = .error (.limit e) ∧
      (o.maxFileBytes = .error e ∨ ∃ names m, (Node.folder entries).at? names = some m ∧
        Overlong folder rules o names m ∧ e = .longPath (below folder names).text) := by
  have hcases := candidateFiles_cases hrules log
  rw [hlinks] at hcases
  rcases hcases with ⟨hall, -⟩ | ⟨names', hmem, e, he, hrun⟩
  · have hne : names ≠ [] := by
      rintro rfl
      cases hm
      exact hlong.noFolder entries rfl
    obtain ⟨v, hv⟩ := hall names (hlong.mem_filesBelow htree hfolder hm)
    rw [hlong.judge_eq bytesOf t hne] at hv
    cases hv
  · refine ⟨e, hrun, ?_⟩
    rcases judge_error_cases htree hfolder hlinks hmem he with ⟨m', hm', hlong', rfl⟩ | ⟨hlimit, -⟩
    · exact .inr ⟨names', m', hm', hlong', rfl⟩
    · exact .inl hlimit

variable (hshort : ∀ names m, (Node.folder entries).at? names = some m →
  ¬ Overlong folder rules o names m)

include hshort

/-- A scan with a limit in bytes finds the files that pass the rules and are not too large. -/
theorem candidateFiles_of_limit {limit : Int} (hlimit : o.maxFileBytes = .ok limit) :
    ∃ files log', (candidateFiles bytesOf t folder o).runOn log = (.ok files, log') ∧
      (files.map joined).Pairwise (· < ·) ∧
      ∀ names, names ∈ files ↔ ∃ content, Wanted (.folder entries) rules o names content ∧
        PathText (below folder names).text ∧ ((bytesOf content).size : Int) ≤ limit := by
  have hlisted := filesBelow_listed htree.tidy folder rules false
  have hcases := candidateFiles_cases hrules log
  rw [hlinks] at hcases
  rcases hcases with ⟨-, log', hrun⟩ | ⟨names, hmem, e, he, -⟩
  · refine ⟨_, log', hrun, pairwise_lt_mergeSort ?_, fun names => ?_⟩
    · exact (hlisted.of_subperm List.filter_sublist.subperm).nodup_joined
    · rw [List.mem_mergeSort, List.mem_filter]
      constructor
      · rintro ⟨hmem, hkeeps⟩
        exact (keeps_iff htree hfolder hlinks hmem (hshort names) hlimit).mp hkeeps
      · rintro ⟨content, hwanted, htext, hsize⟩
        have hmem := hwanted.mem_filesBelow htree hfolder htext
        exact ⟨hmem, (keeps_iff htree hfolder hlinks hmem (hshort names) hlimit).mpr
          ⟨content, hwanted, htext, hsize⟩⟩
  · rcases judge_error_cases htree hfolder hlinks hmem he with ⟨m, hm, hlong, -⟩ | ⟨hlimit', -⟩
    · exact absurd hlong (hshort names m hm)
    · rw [hlimit] at hlimit'
      cases hlimit'

/-- A scan with a limit that is no number of bytes fails if a file passes the rules. -/
theorem candidateFiles_of_wanted {e : LimitError} (hlimit : o.maxFileBytes = .error e) {content : α}
    (hwanted : Wanted (.folder entries) rules o names content)
    (htext : PathText (below folder names).text) :
    ((candidateFiles bytesOf t folder o).runOn log).1 = .error (.limit e) := by
  have hcases := candidateFiles_cases hrules log
  rw [hlinks] at hcases
  rcases hcases with ⟨hall, -⟩ | ⟨names', hmem, e', he', hrun⟩
  · have hjudge := hwanted.judge_eq bytesOf htree hfolder htext
    rw [hlimit] at hjudge
    obtain ⟨v, hv⟩ := hall names (hwanted.mem_filesBelow htree hfolder htext)
    rw [hjudge] at hv
    cases hv
  · rcases judge_error_cases htree hfolder hlinks hmem he' with ⟨m, hm, hlong, -⟩ | ⟨hlimit', -⟩
    · exact absurd hlong (hshort names' m hm)
    · rw [hlimit] at hlimit'
      cases hlimit'
      exact hrun

/-- A scan finds nothing if no file passes the rules. -/
theorem candidateFiles_of_none (hnone : ¬ ∃ names content,
      Wanted (.folder entries) rules o names content ∧ PathText (below folder names).text) :
    ((candidateFiles bytesOf t folder o).runOn log).1 = .ok [] := by
  have hcases := candidateFiles_cases hrules log
  rw [hlinks] at hcases
  rcases hcases with ⟨-, log', hrun⟩ | ⟨names, hmem, e, he, -⟩
  · have hempty : (filesBelow t folder rules false).filter
        (fun names => keeps (judge bytesOf t folder rules o names)) = [] := by
      refine List.filter_eq_nil_iff.mpr fun names hmem hkeeps => ?_
      rw [judge_of_not_wanted htree hfolder hlinks hmem (hshort names)
        fun ⟨content, h⟩ => hnone ⟨names, content, h⟩] at hkeeps
      cases hkeeps
    rw [hrun, hempty, List.mergeSort_nil]
  · rcases judge_error_cases htree hfolder hlinks hmem he with ⟨m, hm, hlong, -⟩ | ⟨-, hwanted⟩
    · exact absurd hlong (hshort names m hm)
    · exact absurd ⟨names, hwanted⟩ hnone

end Results

/-- What a scan that follows no links finds, for every folder of a disk, all options and all
rules: the files that pass the rules and are not too large, sorted by their paths.  If the limit is
no number of bytes, the scan fails if a file passes the rules, and finds nothing if there is none.
It fails as well if something passes the rules whose path is too long; what stands in a folder with
such a path is not found. -/
theorem candidateFiles_exact (htree : t.root.Named)
    (hfolder : t.find folder.text = .ok (.folder entries)) (hlinks : o.followSymlinks = false)
    (hrules : scanRules bytesOf t folder o = .ok rules) (log : List LogRecord) :
    (∀ names m, (Node.folder entries).at? names = some m → Overlong folder rules o names m →
      ∃ e, ((candidateFiles bytesOf t folder o).runOn log).1 = .error (.limit e) ∧
        (o.maxFileBytes = .error e ∨ ∃ names m, (Node.folder entries).at? names = some m ∧
          Overlong folder rules o names m ∧ e = .longPath (below folder names).text)) ∧
    ((∀ names m, (Node.folder entries).at? names = some m → ¬ Overlong folder rules o names m) →
      (∀ limit, o.maxFileBytes = .ok limit →
        ∃ files log', (candidateFiles bytesOf t folder o).runOn log = (.ok files, log') ∧
          (files.map joined).Pairwise (· < ·) ∧
          ∀ names, names ∈ files ↔ ∃ content, Wanted (.folder entries) rules o names content ∧
            PathText (below folder names).text ∧ ((bytesOf content).size : Int) ≤ limit) ∧
      ∀ e, o.maxFileBytes = .error e →
        ((∃ names content, Wanted (.folder entries) rules o names content ∧
            PathText (below folder names).text) →
          ((candidateFiles bytesOf t folder o).runOn log).1 = .error (.limit e)) ∧
        ((¬ ∃ names content, Wanted (.folder entries) rules o names content ∧
            PathText (below folder names).text) →
          ((candidateFiles bytesOf t folder o).runOn log).1 = .ok [])) := by
  refine ⟨fun names m => candidateFiles_of_overlong htree hfolder hlinks hrules log,
    fun hshort => ⟨fun limit => candidateFiles_of_limit htree hfolder hlinks hrules log hshort,
      fun e he => ⟨?_, candidateFiles_of_none htree hfolder hlinks hrules log hshort⟩⟩⟩
  rintro ⟨names, content, hwanted, htext⟩
  exact candidateFiles_of_wanted htree hfolder hlinks hrules log hshort he hwanted htext

end Scan

/-! ## A folder that is ignored -/

section Example

open Ignore

/-- A source file, and one in a folder that is ignored. -/
def outputDisk : Disk ByteArray where
  root := .folder [("A.java", .file .empty), ("out", .folder [("B.java", .file .empty)])]

/-- Options that ignore that folder. -/
def outputIgnored : IndexOptions := { excludeGlobs := ["out/"], useGitignore := false }

/-- The rule for all that is in that folder. -/
def outputRule : Rule where
  ignores := true
  glob := maybeFolders :: [literal 'o', literal 'u', literal 't'] ++ beneath

theorem outputDisk_named : outputDisk.root.Named := by
  have hsource (name : String) (h : name = "A.java" ∨ name = "out" ∨ name = "B.java") :
      PathName name := by
    rcases h with rfl | rfl | rfl <;>
      exact ⟨⟨by decide, by decide⟩, by decide, by decide, by decide, by decide⟩
  refine Node.named_folder (by decide) fun e he => ?_
  rcases List.mem_cons.mp he with rfl | he
  · exact ⟨hsource _ (.inl rfl), Node.named_file _⟩
  · obtain rfl := List.mem_singleton.mp he
    refine ⟨hsource _ (.inr (.inl rfl)), Node.named_folder (by decide) fun e he => ?_⟩
    obtain rfl := List.mem_singleton.mp he
    exact ⟨hsource _ (.inr (.inr rfl)), Node.named_file _⟩

theorem ofLine?_output : Rule.ofLine? "out/" = .ok (some outputRule) := by
  have hparts : assemble true false 1 ["**", "out", "**"] = .ok outputRule.glob := by
    simp only [assemble, if_true]
    rfl
  have hglob : globOf "out/" "out/" = .ok (some outputRule.glob) := by
    rw [globOf, show "out/".splitOn "/" = ["out", ""] by cbv,
      show anchored (mergeStars ["out", ""]) = ["**", "out", ""] by cbv]
    split
    · rename_i h
      cases h
    · rename_i h
      simp at h
    · rw [show withFolderEnd ["**", "out", ""] = ["**", "out", "**"] by cbv, hparts]
  rw [Rule.ofLine?, show trimPattern "out/" = "out/" by cbv,
    show ("out/".startsWith "#") = false by cbv, if_neg (by decide)]
  exact congrArg (Except.map _) hglob

theorem scanRules_output {o : IndexOptions} (hglobs : o.excludeGlobs = ["out/"])
    (hfile : o.useGitignore = false) : scanRules id outputDisk {} o = .ok [outputRule] := by
  have hrules : Rules.ofLines ["out/"] = .ok [outputRule] := by
    rw [Rules.ofLines, ofLine?_output]
    rfl
  rw [scanRules, ignoreRules, hglobs, hfile]
  exact congrArg (Except.mapError _) hrules

theorem outputDisk_find : outputDisk.find (Path.text {}) = .ok outputDisk.root := by cbv

/-- No path on the disk is long. -/
theorem not_overlong_output {rules : Rules} {o : IndexOptions} {names : List String}
    {m : Node ByteArray} (hm : outputDisk.root.at? names = some m) :
    ¬ Overlong {} rules o names m := by
  intro h
  have hall : names ∈ [[], ["A.java"], ["out"], ["out", "B.java"]] := by
    rcases names with _ | ⟨c, cs⟩
    · exact List.mem_cons_self
    obtain ⟨k, hk, hrest⟩ := Option.bind_eq_some_iff.mp hm
    have htop : (c, k) ∈ [("A.java", Node.file ByteArray.empty),
        ("out", .folder [("B.java", .file .empty)])] := mem_of_lookup hk
    simp only [List.mem_cons, Prod.mk.injEq, List.not_mem_nil, or_false] at htop
    obtain ⟨rfl, rfl⟩ | ⟨rfl, rfl⟩ := htop
    · rcases cs with _ | ⟨d, ds⟩
      · simp
      · cases hrest
    · rcases cs with _ | ⟨d, ds⟩
      · simp
      obtain ⟨k, hk, hrest⟩ := Option.bind_eq_some_iff.mp hrest
      have hbelow : (d, k) ∈ [("B.java", Node.file ByteArray.empty)] := mem_of_lookup hk
      obtain ⟨rfl, rfl⟩ := Prod.mk.inj (List.mem_singleton.mp hbelow)
      rcases ds with _ | ⟨e, es⟩
      · simp
      · cases hrest
  have hshort : ∀ names ∈ [[], ["A.java"], ["out"], ["out", "B.java"]],
      (below {} names).text.utf8ByteSize ≤ maxPathBytes := by decide +kernel
  exact absurd h.long (not_lt.mpr (hshort names hall))

/-- A scan finds the file that stands beside the ignored folder, and none in it.  With a limit
of `1e308` megabytes, it finds nothing and fails. -/
theorem candidateFiles_exact_outputFolder :
    (∃ files log', (candidateFiles id outputDisk {} outputIgnored).runOn [] = (.ok files, log') ∧
      ["A.java"] ∈ files ∧ ["out", "B.java"] ∉ files) ∧
    ((candidateFiles id outputDisk {} { outputIgnored with maxFileMb := 1e308 }).runOn []).1 =
      .error (.limit .infinite) := by
  have hsource (o : IndexOptions) (h : o.suffixes = [".java"]) :
      Wanted outputDisk.root [outputRule] o ["A.java"] ByteArray.empty := by
    refine ⟨rfl, ?_, by decide, ?_⟩
    · rw [h]
      decide
    · rintro front ⟨hne, hprefix, hproper⟩
      exact absurd (List.IsPrefix.eq_of_length_le hprefix (List.length_pos_iff.mpr hne)) hproper
  have htext : PathText (below {} ["A.java"]).text := by decide
  constructor
  · obtain ⟨files, log', hrun, -, hmem⟩ :=
      ((candidateFiles_exact (o := outputIgnored) outputDisk_named outputDisk_find rfl
        (scanRules_output rfl rfl) []).2 fun _ _ => not_overlong_output).1 2097152 (by decide)
    refine ⟨files, log', hrun, (hmem _).mpr ⟨_, hsource _ (by decide), htext, by decide⟩,
      fun h => ?_⟩
    obtain ⟨content, hbelow, -⟩ := (hmem _).mp h
    have hkept := hbelow.reached ["out"] ⟨by simp, by simp, by simp⟩
    rw [show Rules.ignores [outputRule] (joined ["out"] ++ "/") = true by decide] at hkept
    cases hkept
  · have hlarge : ({ outputIgnored with maxFileMb := 1e308 } : IndexOptions).maxFileBytes =
        .error .infinite := by
      change truncateFloat (1e308 * 1024 * 1024) = _
      decide +kernel
    exact (((candidateFiles_exact (o := { outputIgnored with maxFileMb := 1e308 }) outputDisk_named
      outputDisk_find rfl (scanRules_output rfl rfl) []).2 fun _ _ => not_overlong_output).2 _
      hlarge).1 ⟨_, _, hsource _ (by decide), htext⟩

end Example

end SourceShelf
