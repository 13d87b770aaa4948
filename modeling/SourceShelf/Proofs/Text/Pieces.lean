import Mathlib.Data.String.Basic

/-!
# Texts and their pieces

What a text is made of can be told from it in these cases.

* `toString_nat_inj`, `toString_int_inj`: the numeral of a whole number.
* `append_cons_inj`, `append_singleton_inj`, `append_singleton_inj_right`: what
  stands around a separator that does not occur before it, or behind it.
* `splitOn_singleton`: splitting at a character, on characters.
-/

namespace SourceShelf

/-! ## Numerals -/

theorem isDigit_of_mem_toString {n : Nat} {c : Char} (h : c ∈ (toString n).toList) :
    c.isDigit = true := by
  have hdigits : c ∈ Nat.toDigits 10 n := by
    simpa [Nat.toString_eq_repr, Nat.repr_eq_ofList_toDigits] using h
  exact Nat.isDigit_of_mem_toDigits (by decide) (by decide) hdigits

theorem toString_nat_inj {m n : Nat} (h : toString m = toString n) : m = n := by
  have hdigits : Nat.toDigits 10 m = Nat.toDigits 10 n := by
    have hlists := congrArg String.toList h
    simpa only [Nat.toString_eq_repr, Nat.toList_repr] using hlists
  rw [← Nat.ofDigitChars_ten_toDigits (n := m), hdigits, Nat.ofDigitChars_ten_toDigits]

theorem toString_int_inj {m n : Int} (h : toString m = toString n) : m = n := by
  -- only the numeral of a negative number starts with a sign
  have hsign (k l : Nat) : toString k ≠ "-" ++ toString (l + 1) := by
    intro heq
    have hmem : '-' ∈ (toString k).toList := by
      rw [heq, String.toList_append]
      exact List.mem_append_left _ (by decide)
    exact absurd (isDigit_of_mem_toString hmem) (by decide)
  cases m with
  | ofNat k =>
    cases n with
    | ofNat l => exact congrArg Int.ofNat (toString_nat_inj h)
    | negSucc l => exact absurd h (hsign k l)
  | negSucc k =>
    cases n with
    | ofNat l => exact absurd h.symm (hsign l k)
    | negSucc l =>
      have htail : "-" ++ toString (k + 1) = "-" ++ toString (l + 1) := h
      have := toString_nat_inj ((String.append_right_inj _).mp htail)
      omega

/-! ## Separators -/

theorem append_cons_inj {α : Type} {c : α} {a a' b b' : List α} (ha : c ∉ a) (ha' : c ∉ a')
    (h : a ++ c :: b = a' ++ c :: b') : a = a' ∧ b = b' := by
  induction a generalizing a' with
  | nil =>
    cases a' with
    | nil => exact ⟨rfl, (List.cons.inj h).2⟩
    | cons x a' => exact absurd ((List.cons.inj h).1 ▸ List.mem_cons_self) ha'
  | cons y a ih =>
    cases a' with
    | nil => exact absurd ((List.cons.inj h).1 ▸ List.mem_cons_self) ha
    | cons x a' =>
      rw [List.mem_cons, not_or] at ha ha'
      obtain ⟨hxy, htail⟩ := List.cons.inj h
      obtain ⟨haa, hbb⟩ := ih ha.2 ha'.2 htail
      exact ⟨by rw [hxy, haa], hbb⟩

/-- What stands before the first separator of a text, and what stands behind it,
can be told from the text. -/
theorem append_singleton_inj {c : Char} {a a' b b' : String} (ha : c ∉ a.toList)
    (ha' : c ∉ a'.toList)
    (h : a ++ String.singleton c ++ b = a' ++ String.singleton c ++ b') : a = a' ∧ b = b' := by
  have hlist : a.toList ++ c :: b.toList = a'.toList ++ c :: b'.toList := by
    have := congrArg String.toList h
    simpa using this
  obtain ⟨hfront, hback⟩ := append_cons_inj ha ha' hlist
  exact ⟨String.toList_inj.mp hfront, String.toList_inj.mp hback⟩

/-- What stands behind the last separator of a text, and what stands before it,
can be told from the text. -/
theorem append_singleton_inj_right {c : Char} {a a' b b' : String} (hb : c ∉ b.toList)
    (hb' : c ∉ b'.toList)
    (h : a ++ String.singleton c ++ b = a' ++ String.singleton c ++ b') : a = a' ∧ b = b' := by
  have hlist : b.toList.reverse ++ c :: a.toList.reverse =
      b'.toList.reverse ++ c :: a'.toList.reverse := by
    have := congrArg (fun s : String => s.toList.reverse) h
    simpa using this
  obtain ⟨hback, hfront⟩ := append_cons_inj (by simpa using hb) (by simpa using hb') hlist
  exact ⟨String.toList_inj.mp (List.reverse_inj.mp hfront),
    String.toList_inj.mp (List.reverse_inj.mp hback)⟩

/-! ## Splitting -/

open String in
/-- The library splits a text by places in it.  In front of the place stand `l`,
which is done with, and `m`, which belongs to the next piece. -/
private theorem splitOnAux_singleton (c : Char) (l m r : List Char) (acc : List String) :
    splitOnAux (ofList (l ++ m ++ r)) (ofList [c]) ⟨utf8Len l⟩ ⟨utf8Len l + utf8Len m⟩ 0 acc =
      acc.reverse ++ (List.splitOnPPrepend (· == c) r m.reverse).map ofList := by
  induction r generalizing l m acc with
  | nil =>
    have hend : Pos.Raw.atEnd (ofList (l ++ m ++ [])) ⟨utf8Len l + utf8Len m⟩ = true := by
      rw [← utf8Len_append, atEnd_of_valid]
    rw [splitOnAux, if_pos hend, extract_of_valid]
    simp
  | cons d r ih =>
    have hend : ¬ Pos.Raw.atEnd (ofList (l ++ m ++ d :: r)) ⟨utf8Len l + utf8Len m⟩ = true := by
      rw [← utf8Len_append, atEnd_of_valid]
      simp
    have hget : Pos.Raw.get (ofList (l ++ m ++ d :: r)) ⟨utf8Len l + utf8Len m⟩ = d := by
      rw [← utf8Len_append, get_of_valid]
      rfl
    have hnext : Pos.Raw.next (ofList (l ++ m ++ d :: r)) ⟨utf8Len l + utf8Len m⟩ =
        ⟨utf8Len l + utf8Len m + d.utf8Size⟩ := by
      rw [← utf8Len_append, next_of_valid]
    have hsep : Pos.Raw.get (ofList [c]) 0 = c := get_of_valid [] [c]
    rw [splitOnAux, if_neg hend, hget, hsep]
    by_cases hd : d = c
    · subst hd
      have hone : Pos.Raw.next (ofList [d]) 0 = ⟨d.utf8Size⟩ := by
        simpa using next_of_valid [] d []
      have hbehind : Pos.Raw.atEnd (ofList [d]) ⟨d.utf8Size⟩ = true := by
        simpa using atEnd_of_valid [d] []
      have hback : Pos.Raw.unoffsetBy ⟨utf8Len l + utf8Len m + d.utf8Size⟩ ⟨d.utf8Size⟩ =
          ⟨utf8Len l + utf8Len m⟩ :=
        Pos.Raw.ext (Nat.add_sub_cancel _ _)
      have h := ih (l ++ m ++ [d]) [] (ofList m :: acc)
      have hsize : utf8Len [d] = d.utf8Size := by simp
      rw [List.append_nil, List.append_assoc (l ++ m), List.singleton_append, utf8Len_append,
        utf8Len_append, hsize, utf8Len_nil, Nat.add_zero] at h
      rw [if_pos (beq_self_eq_true _), hnext, hone, if_pos hbehind, hback, extract_of_valid, h,
        List.splitOnPPrepend_cons_pos (p := (· == d)) (beq_self_eq_true _)]
      simp
    · have hback : Pos.Raw.unoffsetBy ⟨utf8Len l + utf8Len m⟩ 0 = ⟨utf8Len l + utf8Len m⟩ := rfl
      have h := ih l (m ++ [d]) acc
      rw [if_neg (by simpa using hd), hback, hnext,
        List.splitOnPPrepend_cons_neg (by simpa using hd)]
      simpa [Nat.add_assoc] using h

/-- The pieces of a text are the pieces of its characters. -/
theorem splitOn_singleton (s : String) (c : Char) :
    s.splitOn (String.singleton c) = (s.toList.splitOn c).map String.ofList := by
  have h := splitOnAux_singleton c [] [] s.toList []
  simp only [List.nil_append, String.ofList_toList] at h
  rw [String.splitOn, if_neg (by simp), List.splitOn_eq_splitOnP,
    List.splitOnP_eq_splitOnPPrepend]
  exact h

end SourceShelf
