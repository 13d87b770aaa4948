import Mathlib
import SourceShelf.Proofs.Files.Steps
import SourceShelf.Proofs.Source.Scan
import SourceShelf.Proofs.Text.Pieces

/-!
# Paths below a folder

The path of names below a folder asks for the steps of the path to the folder and then for
these names, if they are names that a path can go through.

* `Node.Named`: a folder all of whose entries have such names.
* `stepsOf_eq`, `exists_steps_below`: the steps that a path asks for.
* `utf8ByteSize_joined`, `Disk.pathText_below_of_sublist`: how many bytes it has; a path of fewer
  names is shorter.
* `startsWith_below`, `Disk.text_ne_empty_below`: where it starts.
-/

namespace SourceShelf

/-- True of a name of an entry that a path can go through. -/
structure PathName (s : String) : Prop extends EntryName s where
  nonempty : s ≠ ""
  notDot : s ≠ "."
  notDots : s ≠ ".."
  short : s.utf8ByteSize ≤ Files.maxNameBytes

instance : DecidablePred PathName := fun s =>
  decidable_of_iff (('/' ∉ s.toList ∧ NulFree s) ∧ s ≠ "" ∧ s ≠ "." ∧ s ≠ ".." ∧
      s.utf8ByteSize ≤ Files.maxNameBytes)
    ⟨fun ⟨⟨h₁, h₂⟩, h₃, h₄, h₅, h₆⟩ => ⟨⟨h₁, h₂⟩, h₃, h₄, h₅, h₆⟩,
      fun h => ⟨⟨h.slashFree, h.nulFree⟩, h.nonempty, h.notDot, h.notDots, h.short⟩⟩

@[simp] theorem below_nil (folder : Files.Path) : below folder [] = folder := by simp [below]

namespace Files

variable {α : Type}

/-- In every folder, entries have names of their own that a path can go through. -/
def Node.Named (n : Node α) : Prop :=
  ∀ place entries, n.at? place = some (.folder entries) →
    (entries.map Prod.fst).Nodup ∧ ∀ e ∈ entries, PathName e.1

namespace Node

variable {n m : Node α} {entries : List (String × Node α)}

theorem Named.tidy (h : n.Named) : n.Tidy := fun place entries hplace =>
  ⟨(h place entries hplace).1, fun e he => ((h place entries hplace).2 e he).toEntryName⟩

theorem Named.at? (h : n.Named) {p : List String} (hm : n.at? p = some m) : m.Named := by
  intro place entries hplace
  exact h (p ++ place) entries (by rw [at?_append, hm]; exact hplace)

theorem named_file (content : α) : (file content).Named := by
  intro place entries h
  cases place <;> cases h

theorem named_link (target : String) : (link target : Node α).Named := by
  intro place entries h
  cases place <;> cases h

theorem named_folder (hnames : (entries.map Prod.fst).Nodup)
    (hentries : ∀ e ∈ entries, PathName e.1 ∧ e.2.Named) : (folder entries).Named := by
  intro place es h
  cases place with
  | nil =>
    cases h
    exact ⟨hnames, fun e he => (hentries e he).1⟩
  | cons c place =>
    obtain ⟨k, hk, hes⟩ := Option.bind_eq_some_iff.mp h
    exact (hentries (c, k) (mem_of_lookup hk)).2 place es hes

/-- What has something below it is a folder. -/
theorem folder_of_at?_cons {c : String} {cs : List String} (h : n.at? (c :: cs) = some m) :
    ∃ es, n = folder es := by
  cases n with
  | folder es => exact ⟨es, rfl⟩
  | file _ => cases h
  | link _ => cases h

/-- Names that lead through a folder are names of entries. -/
theorem Named.pathNames (h : n.Named) {names : List String} (hm : n.at? names = some m) :
    ∀ s ∈ names, PathName s := by
  induction names generalizing n with
  | nil => simp
  | cons c cs ih =>
    obtain ⟨es, rfl⟩ := folder_of_at?_cons hm
    obtain ⟨k, hk, hrest⟩ := Option.bind_eq_some_iff.mp hm
    intro s hs
    rcases List.mem_cons.mp hs with rfl | hs
    · exact (h [] es rfl).2 (s, k) (mem_of_lookup hk)
    · exact ih (h.at? (p := [c]) (by rw [Node.at?, hk]; rfl)) hrest s hs

end Node

/-! ## The steps of a path -/

/-- The steps of a text are what stands between its slashes. -/
theorem stepsOf_eq (s : String) : stepsOf s = (s.toList.splitOn '/').map String.ofList :=
  splitOn_singleton s '/'

theorem stepsOf_append (s t : String) : stepsOf (s ++ "/" ++ t) = stepsOf s ++ stepsOf t := by
  rw [stepsOf_eq, stepsOf_eq, stepsOf_eq, String.toList_append, String.toList_append,
    List.append_assoc, show "/".toList = ['/'] by decide, List.singleton_append,
    List.splitOn_append_cons_self, List.map_append]

theorem stepsOf_joined {names : List String} (h : ∀ s ∈ names, '/' ∉ s.toList) (hne : names ≠ []) :
    stepsOf (joined names) = names := by
  rw [stepsOf_eq, joined, String.toList_intercalate, show "/".toList = ['/'] by decide,
    List.splitOn_intercalate]
  · simp
  · simpa using h
  · simpa using hne

/-- A step that stays where it is. -/
def Idle (step : String) : Prop := step = "" ∨ step = "."

/-- A path to a folder and the path of names below it differ in their last steps: the
names instead of steps that stay. -/
theorem exists_steps_below {p : Path} {names : List String} (hnames : ∀ s ∈ names, PathName s)
    (hne : names ≠ []) :
    ∃ front idle, stepsOf p.text = front ++ idle ∧ (∀ s ∈ idle, Idle s) ∧
      stepsOf (below p names).text = front ++ names := by
  have hjoined : stepsOf (joined names) = names :=
    stepsOf_joined (fun s hs => (hnames s hs).slashFree) hne
  have hbelow : (below p names).text = p.anchor.text ++ joined (p.names ++ names) := by
    rw [below, Path.text, if_neg (by simp [hne])]
    rfl
  rw [hbelow]
  obtain ⟨anchor, folders⟩ := p
  cases folders with
  | nil =>
    rw [List.nil_append]
    cases anchor with
    | relative =>
      exact ⟨[], ["."], by cbv, by simp [Idle], by simpa [Anchor.text] using hjoined⟩
    | root =>
      refine ⟨[""], [""], by cbv, by simp [Idle], ?_⟩
      have h := stepsOf_append "" (joined names)
      rwa [hjoined, show stepsOf "" = [""] by cbv] at h
    | doubleRoot =>
      refine ⟨["", ""], [""], by cbv, by simp [Idle], ?_⟩
      have h := stepsOf_append "/" (joined names)
      rwa [hjoined, show stepsOf "/" = ["", ""] by cbv] at h
  | cons folder folders =>
    have htext : (Path.mk anchor (folder :: folders)).text =
        anchor.text ++ joined (folder :: folders) := by
      rw [Path.text, if_neg (by simp)]
      rfl
    refine ⟨_, [], (List.append_nil _).symm, by simp, ?_⟩
    rw [htext, joined, String.intercalate_append_of_ne_nil (List.cons_ne_nil _ _) hne,
      ← String.append_assoc, ← String.append_assoc, stepsOf_append]
    exact congrArg _ hjoined

private theorem startsWith_append {s : String} (h : s ≠ "") (t : String) :
    (s ++ t).startsWith "/" = s.startsWith "/" := by
  have hs : s.toList ≠ [] := by simpa using h
  obtain ⟨c, cs, hcs⟩ := List.exists_cons_of_ne_nil hs
  rw [Bool.eq_iff_iff, String.startsWith_string_iff, String.startsWith_string_iff,
    String.toList_append, hcs, show "/".toList = ['/'] by decide]
  simp

/-- A path below a folder starts where the path to the folder starts. -/
theorem startsWith_below {p : Path} {names : List String} (hnames : ∀ s ∈ names, PathName s)
    (hne : names ≠ []) (htext : p.text ≠ "") :
    (below p names).text.startsWith "/" = p.text.startsWith "/" := by
  have hbelow : (below p names).text = p.anchor.text ++ joined (p.names ++ names) := by
    rw [below, Path.text, if_neg (by simp [hne])]
    rfl
  obtain ⟨anchor, folders⟩ := p
  by_cases hrelative : anchor = .relative ∧ folders = []
  · obtain ⟨rfl, rfl⟩ := hrelative
    obtain ⟨c, cs, rfl⟩ := List.exists_cons_of_ne_nil hne
    have hc := hnames c List.mem_cons_self
    have hslash : c.startsWith "/" = false := by
      rw [← Bool.not_eq_true, String.startsWith_string_iff, show "/".toList = ['/'] by decide]
      exact fun h => hc.slashFree (h.subset (List.mem_singleton_self _))
    have hjoined : ∃ rest, joined (c :: cs) = c ++ rest := by
      cases cs with
      | nil => exact ⟨"", by rw [joined_singleton, String.append_empty]⟩
      | cons d cs => exact ⟨_, by rw [joined_cons_cons, String.append_assoc]⟩
    obtain ⟨rest, hrest⟩ := hjoined
    rw [hbelow, Anchor.text, String.empty_append, List.nil_append, hrest,
      startsWith_append hc.nonempty, hslash, show (Path.mk .relative []).text = "." by cbv]
    cbv
  · have htext' : (Path.mk anchor folders).text = anchor.text ++ joined folders := by
      rw [Path.text, if_neg (by simpa using hrelative)]
      rfl
    rw [htext'] at htext ⊢
    rw [hbelow]
    cases folders with
    | nil =>
      have hnone : joined [] = "" := String.intercalate_nil
      rw [hnone, String.append_empty] at htext ⊢
      exact startsWith_append htext _
    | cons folder folders =>
      have hmore : joined (folder :: folders ++ names) =
          joined (folder :: folders) ++ ("/" ++ joined names) := by
        rw [joined, String.intercalate_append_of_ne_nil (List.cons_ne_nil _ _) hne,
          String.append_assoc]
        rfl
      rw [hmore, ← String.append_assoc]
      exact startsWith_append htext _

/-! ## How long a path is -/

theorem utf8ByteSize_joined (names : List String) :
    (joined names).utf8ByteSize = (names.map String.utf8ByteSize).sum + (names.length - 1) := by
  induction names with
  | nil =>
    rw [joined, String.intercalate_nil]
    rfl
  | cons s names ih =>
    cases names with
    | nil => simp [joined_singleton]
    | cons t names =>
      have hslash : (String.singleton '/').utf8ByteSize = 1 := by decide
      rw [joined_cons_cons, String.utf8ByteSize_append, String.utf8ByteSize_append, ih, hslash]
      simp only [List.map_cons, List.sum_cons, List.length_cons]
      omega

theorem utf8ByteSize_joined_le {front names : List String} (h : front.Sublist names) :
    (joined front).utf8ByteSize ≤ (joined names).utf8ByteSize := by
  have hsum := (h.map String.utf8ByteSize).sum_le_sum fun _ _ => Nat.zero_le _
  have hlength := h.length_le
  rw [utf8ByteSize_joined, utf8ByteSize_joined]
  omega

/-- The bytes of a path are those of its anchor and its names; an empty path is a dot. -/
theorem utf8ByteSize_text (p : Path) :
    p.text.utf8ByteSize = p.anchor.text.utf8ByteSize + (joined p.names).utf8ByteSize ∨
      p.text.utf8ByteSize = 1 ∧ p.anchor.text.utf8ByteSize + (joined p.names).utf8ByteSize = 0 := by
  obtain ⟨anchor, names⟩ := p
  by_cases hdot : anchor = .relative ∧ names = []
  · obtain ⟨rfl, rfl⟩ := hdot
    exact .inr (by decide)
  · refine .inl ?_
    rw [Path.text, if_neg (by simpa using hdot)]
    exact String.utf8ByteSize_append ..

/-- A path with more names than one that is too long is too long. -/
theorem long_below {p : Path} {front names : List String} (h : front.Sublist names)
    (hlong : maxPathBytes < (below p front).text.utf8ByteSize) :
    maxPathBytes < (below p names).text.utf8ByteSize := by
  have hle : (joined (below p front).names).utf8ByteSize ≤
      (joined (below p names).names).utf8ByteSize :=
    utf8ByteSize_joined_le ((List.Sublist.refl p.names).append h)
  have hanchor : (below p front).anchor = (below p names).anchor := rfl
  have hmax : 1 < maxPathBytes := by decide
  have hfront := utf8ByteSize_text (below p front)
  have hnames := utf8ByteSize_text (below p names)
  rw [hanchor] at hfront
  omega

/-- A name in a folder turns to what has it. -/
theorem turn_of_pathName {root : Node α} {place : List String} {es : List (String × Node α)}
    {c : String} (hplace : root.at? place = some (.folder es)) (hc : PathName c) :
    turn root place c = .ofNode (place ++ [c]) (root.at? (place ++ [c])) := by
  rw [turn, hplace]
  dsimp only
  rw [if_neg (by simp [hc.nonempty, hc.notDot]), if_neg hc.notDots,
    if_neg (Nat.not_lt.mpr hc.short)]

namespace Disk

variable {t : Disk α} {s : String} {n : Node α}

/-- What is found stands at a place. -/
theorem spotOf_of_find {last : Bool} (h : t.find s last = .ok n) :
    ∃ place, t.spotOf s last = .ok (.present place) ∧ t.root.at? place = some n := by
  unfold find at h
  split at h
  · cases h
  · cases h
  · rename_i place hspot
    split at h
    · rename_i hplace
      cases h
      exact ⟨place, hspot, hplace⟩
    · cases h

theorem text_ne_empty_below {p : Path} {names : List String} (hnames : ∀ s ∈ names, PathName s)
    (hne : names ≠ []) : (below p names).text ≠ "" := by
  intro h
  obtain ⟨front, idle, -, -, hbelow⟩ := exists_steps_below (p := p) hnames hne
  rw [h, show stepsOf "" = [""] by cbv] at hbelow
  obtain ⟨c, hc⟩ := List.exists_mem_of_ne_nil names hne
  have hmem : c ∈ [""] := hbelow ▸ List.mem_append_right front hc
  exact (hnames c hc).nonempty (List.mem_singleton.mp hmem)

/-- A path that is not too long stays so with names left out. -/
theorem pathText_below_of_sublist {p : Path} {front names : List String} (h : front.Sublist names)
    (hnames : ∀ s ∈ names, PathName s) (hne : front ≠ []) (htext : PathText (below p names).text) :
    PathText (below p front).text where
  nonempty := text_ne_empty_below (fun s hs => hnames s (h.subset hs)) hne
  short := not_lt.mp fun hlong => absurd (long_below h hlong) (not_lt.mpr htext.short)

theorem find_of_long (h : maxPathBytes < s.utf8ByteSize) (t : Disk α) (last : Bool) :
    t.find s last = .error .nameTooLong := by
  rw [find, spotOf_of_long h]

theorem pathText_of_find {last : Bool} (h : t.find s last = .ok n) : PathText s := by
  by_contra htext
  obtain ⟨e, he⟩ := spotOf_of_not_pathText (α := α) htext
  rw [find, he] at h
  cases h

theorem exists_find_of_isFolder {p : Path} (h : t.isFolder p = true) :
    ∃ es, t.find p.text = .ok (.folder es) := by
  unfold isFolder at h
  split at h
  case h_1 es hfind => exact ⟨es, hfind⟩
  case h_2 => cases h

end Disk

end Files

end SourceShelf
