import SourceShelf.Proofs.Json.Objects
import SourceShelf.Proofs.Text.Utf8
import SourceShelf.Settings.Loading

/-!
# Documents are read from their bytes

Reading a file undoes writing it, if no line end is a carriage return.  The
writer escapes those.

* `returnFree_stringText`, `returnFree_bracketed`: the texts of strings, and of
  lists of such texts.
* `readDocument_toUTF8`: a file with a text that can be read.
-/

namespace SourceShelf.Json

/-! ## No carriage returns -/

theorem mem_intercalate {sep : String} {parts : List String} {c : Char}
    (h : c ∈ (sep.intercalate parts).toList) : c ∈ sep.toList ∨ ∃ p ∈ parts, c ∈ p.toList := by
  induction parts with
  | nil => simp at h
  | cons p parts ih =>
    cases parts with
    | nil => exact .inr ⟨p, List.mem_cons_self, by simpa using h⟩
    | cons q parts =>
      rw [String.intercalate_cons_cons, String.toList_append, String.toList_append,
        List.mem_append, List.mem_append] at h
      rcases h with (h | h) | h
      · exact .inr ⟨p, List.mem_cons_self, h⟩
      · exact .inl h
      · obtain h | ⟨r, hr, h⟩ := ih h
        · exact .inl h
        · exact .inr ⟨r, List.mem_cons_of_mem _ hr, h⟩

/-- True of a text without carriage returns. -/
def ReturnFree (s : String) : Prop := '\r' ∉ s.toList

theorem ReturnFree.append {s t : String} (hs : ReturnFree s) (ht : ReturnFree t) :
    ReturnFree (s ++ t) := by
  unfold ReturnFree at *
  rw [String.toList_append, List.mem_append]
  exact fun h => h.elim hs ht

theorem returnFree_intercalate {sep : String} {parts : List String} (hsep : ReturnFree sep)
    (hparts : ∀ p ∈ parts, ReturnFree p) : ReturnFree (sep.intercalate parts) := by
  intro h
  rcases mem_intercalate h with h | ⟨p, hp, h⟩
  · exact hsep h
  · exact hparts p hp h

theorem returnFree_newline (depth : Nat) : ReturnFree (newline depth) := by
  unfold ReturnFree
  rw [newline, String.toList_append, List.mem_append]
  rintro (h | h)
  · simp at h
  · rw [String.toList_ofList] at h
    cases List.eq_of_mem_replicate h

theorem returnFree_bracketed (l : Layout) {opening closing : String} (depth : Nat)
    {parts : List String} (hopening : ReturnFree opening) (hclosing : ReturnFree closing)
    (hparts : ∀ p ∈ parts, ReturnFree p) :
    ReturnFree (bracketed l opening closing depth parts) := by
  have hcomma : ReturnFree "," := by simp [ReturnFree]
  have hspaced : ReturnFree ", " := by simp [ReturnFree]
  unfold bracketed
  split
  · exact hopening.append hclosing
  · split
    · exact (((hopening.append (returnFree_newline _)).append
        (returnFree_intercalate (hcomma.append (returnFree_newline _)) hparts)).append
          (returnFree_newline _)).append hclosing
    · exact (hopening.append (returnFree_intercalate hspaced hparts)).append hclosing

theorem returnFree_stringText (ascii : Bool) (s : String) : ReturnFree (stringText ascii s) :=
  control_not_mem_stringText (by decide) ascii s

/-! ## Files -/

theorem unifyLineEnds_of_returnFree {cs : List Char} (h : '\r' ∉ cs) : unifyLineEnds cs = cs := by
  induction cs with
  | nil => rfl
  | cons c cs ih =>
    rw [List.mem_cons, not_or] at h
    rw [unifyLineEnds, ih h.2]
    · exact fun _ hc _ => h.1 hc.symm
    · exact fun hc => h.1 hc.symm

/-- A text without carriage returns is read from its bytes as it stands. -/
theorem readDocument_toUTF8 {limit : NestingLimit} {s : String} {v : Value}
    (hreturn : ReturnFree s) (hread : readChars limit s.toList = .ok v) :
    readDocument s.toUTF8 limit = .ok v := by
  unfold readDocument
  rw [decodeUtf8_eq_ok_iff.mpr rfl]
  dsimp only
  rw [unifyLineEnds_of_returnFree hreturn, hread]
  rfl

end SourceShelf.Json
