import SourceShelf.Proofs.Files.Links

/-!
# Folders that are made

A folder that is there is left alone.  One that is made, with the missing ones above it, is
empty, and before that nothing could be found below its path.

* `spotOf_last`: a path that does not end at a link leads to the same place whether or not
  a link at its end is followed.
* `Missing`, `find_below_of_missing`: below a path that leads to nothing there is nothing.
* `Disk.find_makeFolders`: what is found below the path of a folder that was made.
-/

namespace SourceShelf.Files

variable {α : Type}

/-! ## Links at the end -/

section Last

variable {root : Node α} {jump jump' : List String → List String → Except FileError Spot}

/-- True of a result that is no place of a link. -/
def EndsAtNoLink (root : Node α) (r : Except FileError Spot) : Prop :=
  ∀ place target, r = .ok (.present place) → root.at? place ≠ some (.link target)

theorem follow_last
    (hjump : ∀ p steps, EndsAtNoLink root (jump p steps) → jump' p steps = jump p steps)
    (steps p : List String) (h : EndsAtNoLink root (follow jump false root p steps)) :
    follow jump' true root p steps = follow jump false root p steps := by
  induction steps generalizing p with
  | nil => rw [follow, follow]
  | cons step rest ih =>
    rw [follow_cons] at h ⊢
    rw [follow_cons]
    rcases turn_cases root p step with
      ⟨q, hturn⟩ | ⟨target, hturn, hlink⟩ | ⟨hturn, -⟩ | ⟨e, hturn⟩ <;> rw [hturn] at h ⊢
    · exact ih q h
    · dsimp only at h ⊢
      rw [Bool.not_true, Bool.and_false, if_neg Bool.false_ne_true]
      rw [Bool.not_false, Bool.and_true] at h ⊢
      cases rest with
      | nil => exact absurd hlink (h _ target (if_pos rfl))
      | cons c cs =>
        rw [List.isEmpty_cons, if_neg Bool.false_ne_true] at h ⊢
        by_cases htarget : target = ""
        · rw [if_pos htarget, if_pos htarget]
        rw [if_neg htarget] at h ⊢
        rw [if_neg htarget]
        exact hjump _ _ h

theorem resolveSteps_last (links : Nat) (p steps : List String)
    (h : EndsAtNoLink root (resolveSteps false root links p steps)) :
    resolveSteps true root links p steps = resolveSteps false root links p steps :=
  resolveSteps_induction
    (P := fun jump jump' => ∀ p steps, EndsAtNoLink root (jump p steps) →
      jump' p steps = jump p steps)
    (fun _ _ _ => rfl) (fun _ _ hjump p steps h => follow_last hjump steps p h) links p steps h

end Last

/-! ## Paths that lead to nothing -/

/-- True of a result that is nothing: a name that is missing at the end, or before it. -/
inductive Missing : Except FileError Spot → Prop where
  | before : Missing (.error .notFound)
  | last (folder : List String) (name : String) : Missing (.ok (.absent folder name))

section Follow

variable {root : Node α} {jump jump' : List String → List String → Except FileError Spot}
  {last : Bool} {place names idle : List String}

/-- Steps that stay lead nowhere else. -/
theorem follow_idle {idle : List String} (hidle : ∀ s ∈ idle, Idle s) :
    follow jump last root place idle = .ok (.present place) ∨
      follow jump last root place idle = .error .notFolder := by
  induction idle with
  | nil => exact .inl (follow.eq_1 ..)
  | cons s idle ih =>
    have hs : (s = "" || s = ".") = true := by simpa [Idle] using hidle s List.mem_cons_self
    rw [follow]
    split
    · rw [if_pos hs]
      exact ih fun t ht => hidle t (List.mem_cons_of_mem _ ht)
    · exact .inr rfl

/-- Where steps lead to nothing, names that go on from there lead to nothing. -/
theorem follow_missing (hidle : ∀ s ∈ idle, Idle s) (hne : names ≠ [])
    (hjump : ∀ p front, Missing (jump p (front ++ idle)) →
      jump' p (front ++ names) = .error .notFound)
    (front : List String) (h : Missing (follow jump true root place (front ++ idle))) :
    follow jump' last root place (front ++ names) = .error .notFound := by
  induction front generalizing place with
  | nil =>
    rw [List.nil_append] at h
    have hstay : follow jump true root place idle = .ok (.present place) ∨
        follow jump true root place idle = .error .notFolder := follow_idle hidle
    rcases hstay with hstay | hstay <;> rw [hstay] at h <;> cases h
  | cons step front ih =>
    have hmore : (front ++ names).isEmpty = false := by simp [hne]
    rw [List.cons_append, follow_cons] at h
    rw [List.cons_append, follow_cons]
    rcases turn_cases root place step with
      ⟨q, hturn⟩ | ⟨target, hturn, -⟩ | ⟨hturn, -⟩ | ⟨e, hturn⟩ <;> rw [hturn] at h ⊢
    · exact ih h
    · dsimp only at h ⊢
      rw [Bool.not_true, Bool.and_false, if_neg Bool.false_ne_true] at h
      rw [hmore, Bool.false_and, if_neg Bool.false_ne_true]
      by_cases htarget : target = ""
      · rw [if_pos htarget]
      rw [if_neg htarget, ← List.append_assoc] at h
      rw [if_neg htarget, ← List.append_assoc]
      exact hjump _ _ h
    · dsimp only
      rw [hmore, if_neg Bool.false_ne_true]
    · cases h
      rfl

theorem resolveSteps_missing (hidle : ∀ s ∈ idle, Idle s) (hne : names ≠ []) (links : Nat)
    (place front : List String)
    (h : Missing (resolveSteps true root links place (front ++ idle))) :
    resolveSteps last root links place (front ++ names) = .error .notFound :=
  resolveSteps_induction
    (P := fun jump jump' => ∀ place front, Missing (jump place (front ++ idle)) →
      jump' place (front ++ names) = .error .notFound)
    (fun _ _ h => by cases h)
    (fun _ _ hjump _ front h => follow_missing hidle hne hjump front h) links place front h

end Follow

namespace Disk

variable {t t' : Disk α} {p : Path}

theorem spotOf_last {s : String} (h : EndsAtNoLink t.root (t.spotOf s false)) :
    t.spotOf s = t.spotOf s false := by
  by_cases htext : PathText s
  · rw [spotOf_of_pathText htext] at h ⊢
    rw [spotOf_of_pathText htext]
    exact resolveSteps_last _ _ _ h
  · obtain ⟨e, he⟩ := spotOf_of_not_pathText (α := α) htext
    rw [he, he]

theorem isFolder_of_missing (h : Missing (t.spotOf p.text)) : t.isFolder p = false := by
  rw [isFolder, find]
  generalize t.spotOf p.text = r at h
  cases h <;> rfl

/-- Below a path that leads to nothing there is nothing. -/
theorem find_below_of_missing (h : Missing (t.spotOf p.text)) (hp : PathText p.text)
    {names : List String} (hnames : ∀ s ∈ names, PathName s) (hne : names ≠ [])
    (htext : PathText (below p names).text) :
    t.find (below p names).text = .error .notFound := by
  obtain ⟨front, idle, hsteps, hidle, hbelow⟩ := exists_steps_below (p := p) hnames hne
  rw [spotOf_of_pathText hp, hsteps] at h
  rw [find, spotOf_of_pathText htext, hbelow, startsWith_below hnames hne hp.nonempty,
    resolveSteps_missing hidle hne _ _ _ h]

/-! ## Making folders -/

/-- A folder that was made is empty, and before that its path led to nothing. -/
theorem of_makeFolder (h : t.makeFolder p = .ok t') :
    Missing (t.spotOf p.text) ∧ t'.find p.text = .ok (.folder []) := by
  unfold makeFolder at h
  split at h
  · cases h
  · cases h
  · rename_i folder name hspot
    cases h
    have hlast : t.spotOf p.text = .ok (.absent folder name) := by
      rw [spotOf_last, hspot]
      rw [hspot]
      intro place target heq
      cases heq
    obtain ⟨hfolder, hfree⟩ := resolveSteps_absent maxLinks _ _ (spotOf_eq_ok hlast).2
    refine ⟨hlast ▸ .last folder name, find_of_writtenAt hlast rfl ?_ rfl⟩
    refine writtenAt_put (fun _ heq => nomatch heq) (.inl hfree) fun front c hplace => ?_
    obtain ⟨rfl, -⟩ := List.append_inj' hplace rfl
    exact hfolder

theorem missing_of_makeFolder (h : t.makeFolder p = .error .notFound) :
    Missing (t.spotOf p.text) := by
  unfold makeFolder at h
  split at h
  · rename_i e hspot
    cases h
    rw [spotOf_last, hspot]
    · exact .before
    · rw [hspot]
      intro place target heq
      cases heq
  · cases h
  · cases h

/-- A folder that is there is left alone. -/
theorem makeFolders_of_isFolder (hp : t.isFolder p = true) : t.makeFolders p = .ok t := by
  have hpresent (hmissing : Missing (t.spotOf p.text)) : False := by
    rw [isFolder_of_missing hmissing] at hp
    cases hp
  unfold makeFolders makeFoldersFrom
  dsimp only
  split
  · rename_i t' hmade
    exact (hpresent (of_makeFolder hmade).1).elim
  · rename_i hmade
    exact (hpresent (missing_of_makeFolder hmade)).elim
  · rw [if_pos hp]

/-- A folder is there and left alone, or it is made and empty.  The induction is on the
number of names: the folder above is made first. -/
theorem makeFoldersFrom_cases {anchor : Anchor} {fuel : Nat} {names : List String}
    (hfuel : names.length < fuel) (hnames : ∀ s ∈ names, PathName s)
    (h : t.makeFoldersFrom anchor fuel names = .ok t') :
    (t.isFolder ⟨anchor, names⟩ = true ∧ t' = t) ∨
      (Missing (t.spotOf (Path.mk anchor names).text) ∧
        t'.find (Path.mk anchor names).text = .ok (.folder [])) := by
  induction fuel generalizing names t' with
  | zero => omega
  | succ fuel ih =>
    rw [makeFoldersFrom] at h
    split at h
    · rename_i t'' hmade
      cases h
      exact .inr (of_makeFolder hmade)
    · rename_i hmade
      have hmissing := missing_of_makeFolder hmade
      split at h
      · cases h
      · rename_i hsome
        have hne : names ≠ [] := by simpa using hsome
        split at h
        · cases h
        · rename_i t₁ habove
          have hshorter : names.dropLast.length < fuel := by
            rw [List.length_dropLast]
            have := List.length_pos_iff.mpr hne
            omega
          have hinit := ih hshorter
            (fun s hs => hnames s (List.dropLast_subset _ hs)) habove
          have hp : (⟨anchor, names⟩ : Path) =
              below ⟨anchor, names.dropLast⟩ [names.getLast hne] := by
            rw [below, List.dropLast_append_getLast]
          split at h
          · rename_i t'' hmade'
            cases h
            exact .inr ⟨hmissing, (of_makeFolder hmade').2⟩
          · rename_i e hmade'
            split at h
            · rename_i hfolder
              cases h
              rcases hinit with ⟨-, rfl⟩ | ⟨-, hempty⟩
              · exact .inl ⟨hfolder, rfl⟩
              · -- in a folder that was just made there is no folder
                rw [hp] at hfolder
                obtain ⟨es, hfind⟩ := exists_find_of_isFolder hfolder
                rw [find_below_missing hempty (hnames _ (List.getLast_mem hne)) rfl
                  (pathText_of_find hfind)] at hfind
                cases hfind
            · cases h
    · split at h
      · rename_i hfolder
        cases h
        exact .inl ⟨hfolder, rfl⟩
      · cases h

/-- Below the path of a folder that was made there was nothing and is nothing. -/
theorem find_makeFolders (h : t.makeFolders p = .ok t')
    (hp : t.isFolder p = true ∨ ∀ s ∈ p.names, PathName s) :
    t' = t ∨ ∀ c, PathName c → ∃ e,
      t.find (p.child c).text = .error e ∧ t'.find (p.child c).text = .error e := by
  by_cases hthere : t.isFolder p = true
  · exact .inl (Except.ok.inj (h.symm.trans (makeFolders_of_isFolder hthere)))
  · have hnames := hp.resolve_left hthere
    rcases makeFoldersFrom_cases (Nat.lt_succ_self _) hnames h with ⟨hfolder, -⟩ | ⟨hbefore, hafter⟩
    · exact absurd hfolder hthere
    · refine .inr fun c hc => ?_
      by_cases htext : PathText (p.child c).text
      · exact ⟨.notFound, find_below_of_missing hbefore (pathText_of_find hafter)
          (by simpa using hc)
          (List.cons_ne_nil c []) htext, find_below_missing hafter hc rfl htext⟩
      · obtain ⟨e, he⟩ := spotOf_of_not_pathText (α := α) htext
        exact ⟨e, by rw [find, he], by rw [find, he]⟩

end Disk

end SourceShelf.Files
