import SourceShelf.Files.Disk

/-!
# Steps of a path

What one step does depends on what stands at a place, and not on the steps behind it
(`turn`).  So a path is followed turn by turn (`follow_cons`), and what holds of every turn and
of every link holds of the whole path (`resolveSteps_induction`).  A text that is empty or too
long is not followed at all, on no disk (`PathText`).
-/

namespace SourceShelf.Files

variable {α : Type}

/-- What one step from a place does. -/
inductive Turn where
  /-- The other steps are followed from a place on. -/
  | goesTo (place : List String)
  /-- There is a link. -/
  | link (target : String)
  /-- There is a folder, and nothing of that name in it. -/
  | missing
  | stops (e : FileError)

/-- What a step does that leads to a place, by what stands there. -/
def Turn.ofNode (place : List String) : Option (Node α) → Turn
  | none => .missing
  | some (.link target) => .link target
  | some _ => .goesTo place

/-- What a step from a place does. -/
def turn (root : Node α) (place : List String) (step : String) : Turn :=
  match root.at? place with
  | some (.folder _) =>
    if step = "" || step = "." then .goesTo place
    else if step = ".." then .goesTo place.dropLast
    else if maxNameBytes < step.utf8ByteSize then .stops .nameTooLong
    else .ofNode (place ++ [step]) (root.at? (place ++ [step]))
  | _ => .stops .notFolder

variable {root root' : Node α} {place : List String} {step : String}
variable {jump jump' : List String → List String → Except FileError Spot} {last last' : Bool}

theorem Turn.ofNode_of_not_link {n : Node α} (h : ∀ target, n ≠ .link target) :
    Turn.ofNode place (some n) = .goesTo place := by
  cases n with
  | link target => exact absurd rfl (h target)
  | file _ => rfl
  | folder _ => rfl

theorem turn_of_not_folder (h : ∀ es, root.at? place ≠ some (.folder es)) :
    turn root place step = .stops .notFolder := by
  unfold turn
  split
  · rename_i es hplace
    exact absurd hplace (h es)
  · rfl

/-- A path is followed turn by turn. -/
theorem follow_cons (rest : List String) :
    follow jump last root place (step :: rest) =
      match turn root place step with
      | .goesTo q => follow jump last root q rest
      | .link target =>
        if rest.isEmpty && !last then .ok (.present (place ++ [step]))
        else if target = "" then .error .notFound
        else jump (if target.startsWith "/" then [] else place) (stepsOf target ++ rest)
      | .missing => if rest.isEmpty then .ok (.absent place step) else .error .notFound
      | .stops e => .error e := by
  rw [follow]
  unfold turn
  rcases root.at? place with _ | (_ | es | _)
  · rfl
  · rfl
  · dsimp only
    by_cases hstay : (step = "" || step = ".") = true
    · rw [if_pos hstay, if_pos hstay]
    rw [if_neg hstay, if_neg hstay]
    by_cases hup : step = ".."
    · rw [if_pos hup, if_pos hup]
    rw [if_neg hup, if_neg hup]
    by_cases hlong : maxNameBytes < step.utf8ByteSize
    · rw [if_pos hlong, if_pos hlong]
    rw [if_neg hlong, if_neg hlong]
    rcases root.at? (place ++ [step]) with _ | (_ | _ | _) <;> rfl
  · rfl

/-- The ways that a step can turn, and what stands there. -/
theorem turn_cases (root : Node α) (place : List String) (step : String) :
    (∃ q, turn root place step = .goesTo q) ∨
    (∃ target, turn root place step = .link target ∧
      root.at? (place ++ [step]) = some (.link target)) ∨
    (turn root place step = .missing ∧ (∃ es, root.at? place = some (.folder es)) ∧
      root.at? (place ++ [step]) = none) ∨
    ∃ e, turn root place step = .stops e := by
  unfold turn
  rcases root.at? place with _ | (_ | es | _)
  · exact .inr (.inr (.inr ⟨_, rfl⟩))
  · exact .inr (.inr (.inr ⟨_, rfl⟩))
  · dsimp only
    by_cases hstay : (step = "" || step = ".") = true
    · exact .inl ⟨_, if_pos hstay⟩
    rw [if_neg hstay]
    by_cases hup : step = ".."
    · exact .inl ⟨_, if_pos hup⟩
    rw [if_neg hup]
    by_cases hlong : maxNameBytes < step.utf8ByteSize
    · exact .inr (.inr (.inr ⟨_, if_pos hlong⟩))
    rw [if_neg hlong]
    rcases root.at? (place ++ [step]) with _ | (_ | _ | target)
    · exact .inr (.inr (.inl ⟨rfl, ⟨es, rfl⟩, rfl⟩))
    · exact .inl ⟨_, rfl⟩
    · exact .inl ⟨_, rfl⟩
    · exact .inr (.inl ⟨target, rfl, rfl⟩)
  · exact .inr (.inr (.inr ⟨_, rfl⟩))

/-- What holds of two ways to follow paths if it holds of what they do with links, holds for any
number of links. -/
theorem resolveSteps_induction
    {P : (jump jump' : List String → List String → Except FileError Spot) → Prop}
    (hlimit : P (fun _ _ => .error .tooManyLinks) fun _ _ => .error .tooManyLinks)
    (hfollow : ∀ jump jump', P jump jump' → P (follow jump last root) (follow jump' last' root'))
    (links : Nat) : P (resolveSteps last root links) (resolveSteps last' root' links) := by
  induction links with
  | zero => exact hfollow _ _ hlimit
  | succ links ih => exact hfollow _ _ ih

/-! ## Texts that are followed -/

/-- True of a text that is followed as a path. -/
structure PathText (s : String) : Prop where
  nonempty : s ≠ ""
  short : s.utf8ByteSize ≤ maxPathBytes

instance : DecidablePred PathText := fun s =>
  decidable_of_iff (s ≠ "" ∧ s.utf8ByteSize ≤ maxPathBytes)
    ⟨fun h => ⟨h.1, h.2⟩, fun h => ⟨h.1, h.2⟩⟩

namespace Disk

variable {s : String}

theorem spotOf_of_pathText (h : PathText s) (t : Disk α) (last : Bool) :
    t.spotOf s last =
      resolveSteps last t.root maxLinks (if s.startsWith "/" then [] else t.cwd) (stepsOf s) := by
  rw [spotOf, if_neg h.nonempty, if_neg (Nat.not_lt.mpr h.short)]

/-- A text that is not followed leads nowhere, for the same reason on every disk. -/
theorem spotOf_of_not_pathText (h : ¬ PathText s) :
    ∃ e, ∀ (t : Disk α) (last : Bool), t.spotOf s last = .error e := by
  by_cases hempty : s = ""
  · exact ⟨.notFound, fun t last => by rw [spotOf, if_pos hempty]⟩
  · have hlong : maxPathBytes < s.utf8ByteSize := Nat.not_le.mp fun hshort => h ⟨hempty, hshort⟩
    exact ⟨.nameTooLong, fun t last => by rw [spotOf, if_neg hempty, if_pos hlong]⟩

theorem spotOf_of_long (h : maxPathBytes < s.utf8ByteSize) (t : Disk α) (last : Bool) :
    t.spotOf s last = .error .nameTooLong := by
  have hne : s ≠ "" := by
    rintro rfl
    simp at h
  rw [spotOf, if_neg hne, if_pos h]

end Disk

end SourceShelf.Files
