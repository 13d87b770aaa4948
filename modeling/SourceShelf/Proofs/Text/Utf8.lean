import Mathlib
import SourceShelf.Text.Utf8

/-!
# What is UTF-8

Bytes can be decoded just when they are the encoding of a text, which is what comes out
(`decodeUtf8_eq_ok_iff`); all others have a fault, and the first one is the failure
(`decodeUtf8_eq_error_iff`).  `Utf8.piece` takes the bytes of a character and no others: no longer
form of it, no surrogate and no part of it.

* `Utf8.piece_eq_char_iff`: the four forms of a character.
* `Utf8.piece_utf8EncodeChar`, `Utf8.utf8EncodeChar_of_piece`: they are the bytes of a character.
* `Utf8.fault?_eq_none_iff`: bytes without a fault are those of some characters.
-/

namespace SourceShelf

namespace Utf8

/-! ## One character -/

theorem isContinuation_iff {b : UInt8} : isContinuation b = true ↔ b.toNat / 64 = 2 :=
  decide_eq_true_iff

theorem mayFollow_iff {a b : UInt8} :
    mayFollow a b = true ↔ b.toNat / 64 = 2 ∧ (a.toNat = 0xE0 → 0xA0 ≤ b.toNat) ∧
      (a.toNat = 0xED → b.toNat < 0xA0) ∧ (a.toNat = 0xF0 → 0x90 ≤ b.toNat) ∧
      (a.toNat = 0xF4 → b.toNat < 0x90) := by
  rw [mayFollow, Bool.and_eq_true, isContinuation_iff]
  refine and_congr_right fun _ => ?_
  simp only [← UInt8.toNat_inj, UInt8.le_iff_toNat_le, UInt8.lt_iff_toNat_lt, UInt8.reduceToNat]
  repeat' split
  all_goals simp only [decide_eq_true_eq, true_iff]; omega

/-- The four forms of a character. -/
theorem piece_eq_char_iff {a : UInt8} {rest : List UInt8} {ch : Char} {more : Nat} :
    piece a rest = .char ch more ↔
      a.toNat < 0x80 ∧ Char.ofNat a.toNat = ch ∧ more = 0 ∨
      (∃ b tail, rest = b :: tail ∧ 0xC2 ≤ a.toNat ∧ a.toNat < 0xE0 ∧ mayFollow a b = true ∧
        Char.ofNat ((a.toNat - 0xC0) * 64 + bits b) = ch ∧ more = 1) ∨
      (∃ b c tail, rest = b :: c :: tail ∧ 0xE0 ≤ a.toNat ∧ a.toNat < 0xF0 ∧
        mayFollow a b = true ∧ isContinuation c = true ∧
        Char.ofNat (((a.toNat - 0xE0) * 64 + bits b) * 64 + bits c) = ch ∧ more = 2) ∨
      ∃ b c d tail, rest = b :: c :: d :: tail ∧ 0xF0 ≤ a.toNat ∧ a.toNat < 0xF5 ∧
        mayFollow a b = true ∧ isContinuation c = true ∧ isContinuation d = true ∧
        Char.ofNat ((((a.toNat - 0xF0) * 64 + bits b) * 64 + bits c) * 64 + bits d) = ch ∧
        more = 3 := by
  unfold piece
  simp only [UInt8.le_iff_toNat_le, UInt8.lt_iff_toNat_lt, UInt8.reduceToNat, Bool.or_eq_true,
    decide_eq_true_eq]
  rcases rest with _ | ⟨b, _ | ⟨c, _ | ⟨d, tail⟩⟩⟩ <;>
    repeat' split
  all_goals
    simp only [Bool.not_eq_true', List.cons.injEq, ↓existsAndEq, and_true, true_and, reduceCtorEq,
      false_and, and_false, exists_const, or_false, Piece.char.injEq] at *
  all_goals grind

/-- The number of a character: a surrogate is none. -/
theorem toNat_val_cases (c : Char) :
    c.val.toNat < 0xD800 ∨ 0xDFFF < c.val.toNat ∧ c.val.toNat < 0x110000 := c.valid

theorem toNat_val_ofNat {n : Nat} (h : n < 0xD800 ∨ 0xDFFF < n ∧ n < 0x110000) :
    (Char.ofNat n).val.toNat = n := by
  have hvalid : n.isValidChar := h
  change (Char.ofNat n).toNat = n
  rw [Char.toNat_ofNat, if_pos hvalid]

/-! A byte is written as a number by the encoding and read as one by `piece`. -/

theorem toNat_ofNat_byte {n : Nat} (h : n < 256) : (UInt8.ofNat n).toNat = n := by
  rw [UInt8.toNat_ofNat', Nat.mod_eq_of_lt h]

theorem ofNat_eq_byte {n : Nat} {b : UInt8} (h : n = b.toNat) : UInt8.ofNat n = b := by
  rw [h, UInt8.ofNat_toNat]

/-- The bytes of a character are taken for it, whatever stands behind them. -/
theorem piece_utf8EncodeChar (c : Char) (rest : List UInt8) :
    ∃ a as, String.utf8EncodeChar c = a :: as ∧ piece a (as ++ rest) = .char c as.length := by
  -- One case for each number of bytes: that they are in the range of their form is arithmetic.
  have hvalid := toNat_val_cases c
  have hc : Char.ofNat c.val.toNat = c := Char.ofNat_toNat c
  unfold String.utf8EncodeChar
  dsimp only
  generalize c.val.toNat = v at hvalid hc
  subst hc
  split
  · have ha := toNat_ofNat_byte (n := v) (by omega)
    exact ⟨_, _, rfl, piece_eq_char_iff.mpr (.inl ⟨by omega, by rw [ha], rfl⟩)⟩
  split
  · have ha := toNat_ofNat_byte (n := v / 64 % 32 + 0xC0) (by omega)
    have hb := toNat_ofNat_byte (n := v % 64 + 0x80) (by omega)
    refine ⟨_, _, rfl, piece_eq_char_iff.mpr (.inr (.inl ⟨_, rest, rfl, ?_, ?_, ?_, ?_, rfl⟩))⟩
    · omega
    · omega
    · rw [mayFollow_iff, ha, hb]
      omega
    · rw [bits, ha, hb]
      congr 1
      omega
  split
  · have ha := toNat_ofNat_byte (n := v / 4096 % 16 + 0xE0) (by omega)
    have hb := toNat_ofNat_byte (n := v / 64 % 64 + 0x80) (by omega)
    have hc := toNat_ofNat_byte (n := v % 64 + 0x80) (by omega)
    refine ⟨_, _, rfl,
      piece_eq_char_iff.mpr (.inr (.inr (.inl ⟨_, _, rest, rfl, ?_, ?_, ?_, ?_, ?_, rfl⟩)))⟩
    · omega
    · omega
    · rw [mayFollow_iff, ha, hb]
      omega
    · rw [isContinuation_iff, hc]
      omega
    · rw [bits, bits, ha, hb, hc]
      congr 1
      omega
  · have ha := toNat_ofNat_byte (n := v / 262144 % 8 + 0xF0) (by omega)
    have hb := toNat_ofNat_byte (n := v / 4096 % 64 + 0x80) (by omega)
    have hc := toNat_ofNat_byte (n := v / 64 % 64 + 0x80) (by omega)
    have hd := toNat_ofNat_byte (n := v % 64 + 0x80) (by omega)
    refine ⟨_, _, rfl,
      piece_eq_char_iff.mpr (.inr (.inr (.inr ⟨_, _, _, rest, rfl, ?_, ?_, ?_, ?_, ?_, ?_, rfl⟩)))⟩
    · omega
    · omega
    · rw [mayFollow_iff, ha, hb]
      omega
    · rw [isContinuation_iff, hc]
      omega
    · rw [isContinuation_iff, hd]
      omega
    · rw [bits, bits, bits, ha, hb, hc, hd]
      congr 1
      omega

/-- Bytes that are taken for a character are its own: each form has the numbers that no shorter
one can write. -/
theorem utf8EncodeChar_of_piece {a : UInt8} {rest : List UInt8} {c : Char} {more : Nat}
    (h : piece a rest = .char c more) : String.utf8EncodeChar c = a :: rest.take more := by
  obtain ⟨ha, rfl, rfl⟩ | ⟨b, tail, rfl, ha, ha', hb, rfl, rfl⟩ |
    ⟨b, c, tail, rfl, ha, ha', hb, hc, rfl, rfl⟩ |
    ⟨b, c, d, tail, rfl, ha, ha', hb, hc, hd, rfl, rfl⟩ := piece_eq_char_iff.mp h
  all_goals
    unfold String.utf8EncodeChar
    dsimp only [List.take]
  · rw [toNat_val_ofNat (by omega), if_pos (by omega), ofNat_eq_byte rfl]
  · rw [mayFollow_iff] at hb
    rw [bits, toNat_val_ofNat (by omega), if_neg (by omega), if_pos (by omega),
      ofNat_eq_byte (b := a) (by omega), ofNat_eq_byte (b := b) (by omega)]
  · rw [mayFollow_iff] at hb
    rw [isContinuation_iff] at hc
    rw [bits, bits, toNat_val_ofNat (by omega), if_neg (by omega), if_neg (by omega),
      if_pos (by omega), ofNat_eq_byte (b := a) (by omega), ofNat_eq_byte (b := b) (by omega),
      ofNat_eq_byte (b := c) (by omega)]
  · rw [mayFollow_iff] at hb
    rw [isContinuation_iff] at hc hd
    rw [bits, bits, bits, toNat_val_ofNat (by omega), if_neg (by omega), if_neg (by omega),
      if_neg (by omega), ofNat_eq_byte (b := a) (by omega), ofNat_eq_byte (b := b) (by omega),
      ofNat_eq_byte (b := c) (by omega), ofNat_eq_byte (b := d) (by omega)]

/-! ## Many characters -/

/-- Bytes that start with those of a character. -/
theorem cons_eq_flatMap {a : UInt8} {rest : List UInt8} {cs : List Char}
    (h : a :: rest = cs.flatMap String.utf8EncodeChar) :
    ∃ c more cs', cs = c :: cs' ∧ piece a rest = .char c more ∧
      rest.drop more = cs'.flatMap String.utf8EncodeChar := by
  cases cs with
  | nil => exact absurd h (by simp)
  | cons c cs' =>
    obtain ⟨a', as, hc, hpiece⟩ := piece_utf8EncodeChar c (cs'.flatMap String.utf8EncodeChar)
    rw [List.flatMap_cons, hc, List.cons_append] at h
    obtain ⟨rfl, rfl⟩ := List.cons.inj h
    exact ⟨c, as.length, cs', rfl, hpiece, List.drop_left⟩

/-- Bytes have no fault just when they are the bytes of some characters. -/
theorem fault?_eq_none_iff {place : Nat} {bytes : List UInt8} :
    fault? place bytes = none ↔ ∃ cs : List Char, bytes = cs.flatMap String.utf8EncodeChar := by
  fun_induction fault? with
  | case1 => exact iff_of_true rfl ⟨[], rfl⟩
  | case2 place a rest reason more hpiece =>
    refine iff_of_false (by simp) ?_
    rintro ⟨cs, h⟩
    obtain ⟨c, more', cs', -, hchar, -⟩ := cons_eq_flatMap h
    exact absurd (hpiece.symm.trans hchar) (by simp)
  | case3 place a rest c more hpiece ih =>
    rw [ih]
    constructor
    · rintro ⟨cs, h⟩
      refine ⟨c :: cs, ?_⟩
      rw [List.flatMap_cons, utf8EncodeChar_of_piece hpiece, ← h, List.cons_append,
        List.take_append_drop]
    · rintro ⟨cs, h⟩
      obtain ⟨c', more', cs', -, hchar, hbehind⟩ := cons_eq_flatMap h
      obtain ⟨-, rfl⟩ := Piece.char.inj (hpiece.symm.trans hchar)
      exact ⟨cs', hbehind⟩

end Utf8

/-! ## The bytes of a text -/

theorem toList_loop (bytes : ByteArray) (i : Nat) (r : List UInt8) :
    ByteArray.toList.loop bytes i r = r.reverse ++ bytes.data.toList.drop i := by
  fun_induction ByteArray.toList.loop with
  | case1 i r hi ih =>
    have hget : bytes.get! i = bytes.data.toList[i] := getElem!_pos bytes.data i hi
    rw [ih, hget, List.reverse_cons, List.append_assoc, List.singleton_append,
      ← List.drop_eq_getElem_cons]
  | case2 i r hi =>
    have hlength : bytes.data.toList.length ≤ i := Nat.le_of_not_lt hi
    rw [List.drop_eq_nil_of_le hlength, List.append_nil]

theorem toList_eq_data (bytes : ByteArray) : bytes.toList = bytes.data.toList := by
  rw [ByteArray.toList, toList_loop, List.reverse_nil, List.nil_append, List.drop_zero]

theorem length_toList (bytes : ByteArray) : bytes.toList.length = bytes.size := by
  rw [toList_eq_data]
  rfl

theorem toList_inj {bytes other : ByteArray} (h : bytes.toList = other.toList) : bytes = other := by
  rw [toList_eq_data, toList_eq_data] at h
  exact ByteArray.ext (Array.toList_inj.mp h)

theorem toList_toByteArray (l : List UInt8) : l.toByteArray.toList = l := by
  rw [toList_eq_data, List.toList_data_toByteArray]

theorem toList_toUTF8 (s : String) : s.toUTF8.toList = s.toList.flatMap String.utf8EncodeChar := by
  have hbytes : s.toUTF8 = s.toList.utf8Encode := String.utf8Encode_toList.symm
  rw [hbytes, List.utf8Encode, toList_toByteArray]

/-! ## Decoding -/

theorem fromUTF8?_eq_some_iff {bytes : ByteArray} {s : String} :
    String.fromUTF8? bytes = some s ↔ bytes = s.toUTF8 := by
  unfold String.fromUTF8?
  constructor
  · intro h
    split at h
    case isTrue hvalid =>
      obtain rfl := Option.some.inj h
      rfl
    case isFalse => cases h
  · rintro rfl
    exact dif_pos s.isValidUTF8

/-- Bytes are the encoding of a text when they have no fault. -/
theorem exists_toUTF8_iff {bytes : ByteArray} :
    (∃ s : String, bytes = s.toUTF8) ↔ Utf8.fault? 0 bytes.toList = none := by
  rw [Utf8.fault?_eq_none_iff]
  constructor
  · rintro ⟨s, rfl⟩
    exact ⟨s.toList, toList_toUTF8 s⟩
  · rintro ⟨cs, h⟩
    refine ⟨String.ofList cs, toList_inj ?_⟩
    rw [h, toList_toUTF8, String.toList_ofList]

/-- Bytes are decoded to the text that they encode. -/
theorem decodeUtf8_eq_ok_iff {bytes : ByteArray} {s : String} :
    decodeUtf8 bytes = .ok s ↔ bytes = s.toUTF8 := by
  rw [← fromUTF8?_eq_some_iff, decodeUtf8]
  cases String.fromUTF8? bytes with
  | none => simp
  | some s' => simp

/-- Bytes that cannot be decoded have a fault, and the first is the failure. -/
theorem decodeUtf8_eq_error_iff {bytes : ByteArray} {fault : Utf8.Fault} :
    decodeUtf8 bytes = .error fault ↔ Utf8.fault? 0 bytes.toList = some fault := by
  unfold decodeUtf8
  cases hs : String.fromUTF8? bytes with
  | some s =>
    have hnone := exists_toUTF8_iff.mp ⟨s, fromUTF8?_eq_some_iff.mp hs⟩
    simp [hnone]
  | none =>
    cases hfault : Utf8.fault? 0 bytes.toList with
    | none =>
      obtain ⟨s, h⟩ := exists_toUTF8_iff.mpr hfault
      rw [← fromUTF8?_eq_some_iff, hs] at h
      cases h
    | some fault' => simp

end SourceShelf
