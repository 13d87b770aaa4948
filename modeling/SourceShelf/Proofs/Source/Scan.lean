import Mathlib.Data.List.Perm.Subperm
import SourceShelf.Command.Actions
import SourceShelf.Proofs.Action
import SourceShelf.Proofs.Entries
import SourceShelf.Proofs.Index.Record

/-!
# Candidate files have names of their own

On a disk whose folders are in order (`Node.Tidy`), a walk meets no file twice,
and different files have different paths in an index.  So what a run relies on
in its candidates holds whenever they come from a folder.

* `Walk.filesAt_listed`: a walk over links.
* `joined_inj`: the names of a file can be told from its path.
* `filesOf_ownPaths`: the candidates of a target.
-/

namespace SourceShelf

open Files SourceShelf.Action

/-! ## Folders in order -/

/-- True of a name that an entry of a folder can have. -/
structure EntryName (s : String) : Prop where
  slashFree : '/' ∉ s.toList
  nulFree : NulFree s

namespace Files.Node

variable {α : Type} {n m : Node α}

/-- In every folder, entries have names of their own. -/
def Tidy (n : Node α) : Prop :=
  ∀ place entries, n.at? place = some (.folder entries) →
    (entries.map Prod.fst).Nodup ∧ ∀ e ∈ entries, EntryName e.1

theorem at?_append (n : Node α) (p q : List String) :
    n.at? (p ++ q) = (n.at? p).bind (·.at? q) := by
  induction p generalizing n with
  | nil => rfl
  | cons c p ih =>
    rw [List.cons_append, at?, at?]
    cases n.child? c with
    | none => rfl
    | some m => exact ih m

theorem Tidy.at? (h : n.Tidy) {p : List String} (hm : n.at? p = some m) : m.Tidy := by
  intro place entries hplace
  exact h (p ++ place) entries (by rw [at?_append, hm]; exact hplace)

theorem Tidy.entry {entries : List (String × Node α)} (h : (folder entries).Tidy)
    {e : String × Node α} (he : e ∈ entries) : e.2.Tidy := by
  have hlookup := lookup_of_mem (h [] entries rfl).1 he
  exact h.at? (p := [e.1]) (by simp [Node.at?, child?, hlookup])

end Files.Node

/-! ## Walks -/

/-- Files below a place, each listed once. -/
structure Listed (place : List String) (files : List (List String)) : Prop where
  distinct : files.Nodup
  below : ∀ f ∈ files, ∃ rest, rest ≠ [] ∧ f = place ++ rest ∧ ∀ s ∈ rest, EntryName s

theorem listed_nil (place : List String) : Listed place [] := ⟨List.nodup_nil, by simp⟩

namespace Walk

variable {α : Type} {w : Walk} {jump : List String → List (List String)}

mutual

theorem filesIn_listed (hjump : ∀ place, Listed place (jump place)) (here : List String) :
    ∀ n : Node α, n.Tidy → Listed here (filesIn w jump here n)
  | .file _, _ => by rw [filesIn]; exact listed_nil _
  | .link _, _ => by rw [filesIn]; exact listed_nil _
  | .folder entries, hn => by
    obtain ⟨hnames, hnamed⟩ := hn [] entries rfl
    obtain ⟨heach, hbelow⟩ := filesInEach_listed hjump here entries hnames
      fun e he => ⟨hnamed e he, hn.entry he⟩
    rw [filesIn]
    constructor
    · refine List.nodup_append.mpr ⟨?_, heach, ?_⟩
      · have hfiles := hnames.sublist
          ((List.filter_sublist (p := fun e => !w.countsAsFolder here e)).map Prod.fst)
        have hmap := hfiles.map (f := fun s => here ++ [s]) fun s t h => by simpa using h
        rwa [List.map_map] at hmap
      · rintro f hf g hg rfl
        obtain ⟨e, -, rfl⟩ := List.mem_map.mp hf
        obtain ⟨name, -, rest, hrest, heq, -⟩ := hbelow _ hg
        simp only [List.append_cancel_left_eq, List.cons.injEq] at heq
        exact hrest heq.2.symm
    · intro f hf
      rcases List.mem_append.mp hf with hf | hf
      · obtain ⟨e, he, rfl⟩ := List.mem_map.mp hf
        exact ⟨[e.1], by simp, rfl, by simpa using hnamed e (List.mem_filter.mp he).1⟩
      · obtain ⟨name, hname, rest, -, rfl, hok⟩ := hbelow f hf
        obtain ⟨e, he, rfl⟩ := List.mem_map.mp hname
        refine ⟨e.1 :: rest, by simp, rfl, fun s hs => ?_⟩
        rcases List.mem_cons.mp hs with rfl | hs
        · exact hnamed e he
        · exact hok s hs

theorem filesInEach_listed (hjump : ∀ place, Listed place (jump place)) (here : List String) :
    ∀ entries : List (String × Node α), (entries.map Prod.fst).Nodup →
      (∀ e ∈ entries, EntryName e.1 ∧ e.2.Tidy) →
      (filesInEach w jump here entries).Nodup ∧
        ∀ f ∈ filesInEach w jump here entries, ∃ name ∈ entries.map Prod.fst, ∃ rest,
          rest ≠ [] ∧ f = here ++ name :: rest ∧ ∀ s ∈ rest, EntryName s
  | [], _, _ => by rw [filesInEach]; exact ⟨List.nodup_nil, by simp⟩
  | (name, n) :: entries, hnames, hentries => by
    rw [List.map_cons, List.nodup_cons] at hnames
    obtain ⟨heach, hbelow⟩ := filesInEach_listed hjump here entries hnames.2
      fun e he => hentries e (List.mem_cons_of_mem _ he)
    have htidy : n.Tidy := (hentries (name, n) List.mem_cons_self).2
    unfold filesInEach
    dsimp only
    generalize hfirst : (if !w.countsAsFolder here (name, n) || w.isPruned (here ++ [name]) then []
      else _ : List (List String)) = first
    have hlisted : Listed (here ++ [name]) first := by
      rw [← hfirst]
      split
      · exact listed_nil _
      · cases n with
        | link target =>
          dsimp only
          split
          · exact hjump _
          · exact listed_nil _
        | file content => exact filesIn_listed hjump _ (.file content) htidy
        | folder entries =>
          dsimp only
          split
          · exact filesIn_listed hjump _ (.folder entries) htidy
          · exact listed_nil _
    constructor
    · refine List.nodup_append.mpr ⟨hlisted.distinct, heach, ?_⟩
      rintro f hf g hg rfl
      obtain ⟨rest, -, rfl, -⟩ := hlisted.below f hf
      obtain ⟨name', hname', rest', -, heq, -⟩ := hbelow _ hg
      rw [List.append_assoc, List.append_cancel_left_eq, List.singleton_append,
        List.cons.injEq] at heq
      exact hnames.1 (heq.1 ▸ hname')
    · intro f hf
      rcases List.mem_append.mp hf with hf | hf
      · obtain ⟨rest, hrest, rfl, hok⟩ := hlisted.below f hf
        exact ⟨name, List.mem_cons_self, rest, hrest, by simp, hok⟩
      · obtain ⟨name', hname', h⟩ := hbelow f hf
        exact ⟨name', List.mem_cons_of_mem _ hname', h⟩

end

/-- A walk meets every file once, links included. -/
theorem filesAt_listed {nodeAt : List String → Option (Node α)}
    (htidy : ∀ place n, nodeAt place = some n → n.Tidy) (links : Nat) (place : List String) :
    Listed place (filesAt w nodeAt links place) := by
  induction links generalizing place with
  | zero => exact listed_nil _
  | succ links ih =>
    rw [filesAt]
    split
    · rename_i n hn
      exact filesIn_listed ih place n (htidy place n hn)
    · exact listed_nil _

end Walk

theorem Files.Disk.tidy_of_find {α : Type} {t : Disk α} (ht : t.root.Tidy) {s : String} {n : Node α}
    {last : Bool} (h : t.find s last = .ok n) : n.Tidy := by
  unfold find at h
  split at h
  · cases h
  · cases h
  · split at h
    · rename_i m hm
      cases h
      exact ht.at? hm
    · cases h

theorem Files.Disk.tidy_of_toOption_find {α : Type} {t : Disk α} (ht : t.root.Tidy) {s : String}
    {n : Node α} (h : (t.find s).toOption = some n) : n.Tidy := by
  rcases hfind : t.find s with e | m
  · rw [hfind] at h
    cases h
  · rw [hfind] at h
    cases h
    exact tidy_of_find ht hfind

theorem filesBelow_listed {α : Type} {t : Disk α} (ht : t.root.Tidy) (folder : Path)
    (rules : Ignore.Rules) (followsLinks : Bool) :
    Listed [] (filesBelow t folder rules followsLinks) :=
  Walk.filesAt_listed (fun _ _ hn => Disk.tidy_of_toOption_find ht hn) _ _

theorem keptFiles_sublist {judge : List String → Except LimitError Verdict}
    (files : List (List String)) :
    Triple (fun _ => True) (keptFiles judge files) (fun kept _ => kept.Sublist files)
      fun _ => True := by
  induction files with
  | nil => exact triple_pure fun _ _ => List.Sublist.refl _
  | cons names rest ih =>
    refine triple_bind (Q := fun _ _ => True) ?_ fun v => ?_
    · exact triple_intro (fun _ _ _ _ _ => trivial) fun _ _ _ _ _ => trivial
    refine triple_bind (triple_modify (R := fun _ _ => True) fun _ h => h) fun _ => ?_
    refine triple_bind ih fun kept => triple_pure fun _ h => ?_
    split
    · exact h.cons_cons names
    · exact h.cons names

theorem Listed.of_subperm {place : List String} {files files' : List (List String)}
    (h : Listed place files) (hfiles : files'.Subperm files) : Listed place files' where
  distinct := by
    obtain ⟨l, hperm, hsub⟩ := hfiles
    exact hperm.nodup_iff.mp (h.distinct.sublist hsub)
  below f hf := h.below f (List.Subperm.subset hfiles hf)

/-- The files below a folder that are to be indexed. -/
theorem candidateFiles_listed {α : Type} {bytesOf : α → ByteArray} {t : Disk α}
    (ht : t.root.Tidy) (folder : Path) (o : IndexOptions) :
    Triple (fun _ => True) (candidateFiles bytesOf t folder o) (fun files _ => Listed [] files)
      fun _ => True := by
  refine triple_bind (Q := fun _ _ => True) ?_ fun rules => ?_
  · exact triple_intro (fun _ _ _ _ _ => trivial) fun _ _ _ _ _ => trivial
  refine triple_bind (keptFiles_sublist _) fun kept => triple_pure fun _ hkept => ?_
  exact (filesBelow_listed ht folder rules o.followSymlinks).of_subperm
    ((List.mergeSort_perm kept _).subperm.trans hkept.subperm)

/-! ## Paths in an index -/

theorem joined_cons_cons (s t : String) (names : List String) :
    joined (s :: t :: names) = s ++ String.singleton '/' ++ joined (t :: names) :=
  String.intercalate_cons_cons

theorem joined_singleton (s : String) : joined [s] = s := String.intercalate_singleton

private theorem slash_mem_joined (s t : String) (names : List String) :
    '/' ∈ (joined (s :: t :: names)).toList := by
  simp [joined_cons_cons]

/-- The names of a file can be told from its path. -/
theorem joined_inj {a b : List String} (ha : ∀ s ∈ a, EntryName s) (hb : ∀ s ∈ b, EntryName s)
    (ha' : a ≠ []) (hb' : b ≠ []) (h : joined a = joined b) : a = b := by
  induction a generalizing b with
  | nil => exact absurd rfl ha'
  | cons s a ih =>
    obtain _ | ⟨t, b⟩ := b
    · exact absurd rfl hb'
    have hs := (ha s List.mem_cons_self).slashFree
    have ht := (hb t List.mem_cons_self).slashFree
    obtain _ | ⟨s', a⟩ := a <;> obtain _ | ⟨t', b⟩ := b
    · rw [joined_singleton, joined_singleton] at h
      rw [h]
    · rw [joined_singleton] at h
      exact absurd (h ▸ slash_mem_joined t t' b) hs
    · rw [joined_singleton] at h
      exact absurd (h ▸ slash_mem_joined s s' a) ht
    · rw [joined_cons_cons, joined_cons_cons] at h
      obtain ⟨rfl, htail⟩ := append_singleton_inj hs ht h
      rw [ih (fun x hx => ha x (List.mem_cons_of_mem _ hx))
        (fun x hx => hb x (List.mem_cons_of_mem _ hx)) (by simp) (by simp) htail]

/-- Files that are listed have paths of their own. -/
theorem Listed.nodup_joined {files : List (List String)} (h : Listed [] files) :
    (files.map joined).Nodup := by
  refine h.distinct.map_on fun f hf g hg heq => ?_
  obtain ⟨a, ha, rfl, hnames⟩ := h.below f hf
  obtain ⟨b, hb, rfl, hnames'⟩ := h.below g hg
  exact joined_inj hnames hnames' ha hb heq

theorem nulFree_joined {names : List String} (h : ∀ s ∈ names, NulFree s) :
    NulFree (joined names) := by
  induction names with
  | nil => decide
  | cons s names ih =>
    have hs := h s List.mem_cons_self
    obtain _ | ⟨t, names⟩ := names
    · rwa [joined_singleton]
    · have hrest := ih fun x hx => h x (List.mem_cons_of_mem _ hx)
      unfold NulFree at hs hrest ⊢
      rw [joined_cons_cons]
      simp [hs, hrest]

/-- Candidates that a run can rely on: no path comes twice, and none has a NUL
character. -/
structure OwnPaths (cs : List Candidate) : Prop where
  distinct : (cs.map (·.path)).Nodup
  nulFree : ∀ c ∈ cs, NulFree c.path

theorem Listed.ownPaths {files : List (List String)} (h : Listed [] files) (t : Disk FileContent)
    (folder : Path) (limit : Except LimitError Int) :
    OwnPaths (files.map (candidateOf t folder limit)) where
  distinct := by
    rw [List.map_map]
    exact h.nodup_joined
  nulFree c hc := by
    obtain ⟨f, hf, rfl⟩ := List.mem_map.mp hc
    obtain ⟨a, -, rfl, hnames⟩ := h.below f hf
    exact nulFree_joined fun s hs => (hnames s hs).nulFree

/-- The candidates of a target, over a disk whose folders are in order. -/
theorem filesOf_ownPaths {τ : Type} {w : Workspace} {o : IndexOptions}
    (hname : NulFree w.target.name)
    (t : Disk FileContent) (limit : Except LimitError Int) :
    Triple (fun s : Session τ => s.disk.root.Tidy) (filesOf w o)
      (fun files _ => OwnPaths (files.map (candidateOf t w.root limit))) fun _ => True := by
  unfold filesOf
  by_cases hsingle : w.isSingleFile = true
  · rw [if_pos hsingle]
    refine triple_pure fun _ _ => ⟨List.nodup_singleton _, fun c hc => ?_⟩
    obtain rfl := List.mem_singleton.mp hc
    exact nulFree_joined (by simpa using hname)
  · rw [if_neg hsingle]
    refine triple_bind (triple_modify (R := fun _ (s : Session τ) => s.disk.root.Tidy) fun _ h => h)
      fun _ => triple_get fun s => triple_within fun s' hs' => ?_
    refine triple_withError ((candidateFiles_listed ?_ w.root o).conseq (fun _ _ => trivial)
      (fun _ _ h => h.ownPaths t w.root limit) fun _ h => h)
    exact hs'.1 ▸ hs'.2

end SourceShelf
