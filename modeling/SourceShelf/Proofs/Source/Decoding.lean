import Mathlib
import SourceShelf.Source.Loading
import SourceShelf.Proofs.Text.Utf8

/-!
# No bytes are lost in decoding

`decodeSource` reads all bytes, and from its text and the name of the encoding they can be had
again (`decodeSource_lossless`), but for the byte order mark that is left out.

* `withoutMark_cases`: a text loses one mark at most.
* `encodeLatin1?_latin1`: Latin-1 undone.
* `decodeSource_cases`: the two ways to read bytes.
-/

namespace SourceShelf

/-! ## The byte order mark -/

/-- The byte order mark in UTF-8. -/
def markBytes : ByteArray := ⟨#[0xEF, 0xBB, 0xBF]⟩

theorem toUTF8_mark_append (s : String) : ("\ufeff" ++ s).toUTF8 = markBytes ++ s.toUTF8 :=
  String.toByteArray_append

theorem toList_mark : "\ufeff".toList = ['\ufeff'] := by decide

/-- A text loses the mark in front, and nothing where there is none. -/
theorem withoutMark_cases (s : String) :
    s = "\ufeff" ++ withoutMark s ∨ withoutMark s = s ∧ ∀ rest, s ≠ "\ufeff" ++ rest := by
  unfold withoutMark
  split
  case h_1 cs hs =>
    refine .inl (String.toList_injective ?_)
    rw [hs, String.toList_append, toList_mark, String.toList_ofList, List.singleton_append]
  case h_2 hs =>
    refine .inr ⟨rfl, fun rest h => hs rest.toList ?_⟩
    rw [h, String.toList_append, toList_mark, List.singleton_append]

/-- A text whose bytes start with those of the mark starts with the mark. -/
theorem exists_mark_append {s : String} {bytes : ByteArray} (h : s.toUTF8 = markBytes ++ bytes) :
    ∃ rest, s = "\ufeff" ++ rest := by
  have hlist : 0xEF :: 0xBB :: 0xBF :: bytes.toList = s.toList.flatMap String.utf8EncodeChar := by
    rw [← toList_toUTF8, h, toList_eq_data, toList_eq_data, ByteArray.toList_data_append]
    rfl
  obtain ⟨c, more, cs, hs, hpiece, -⟩ := Utf8.cons_eq_flatMap hlist
  have hmark : Utf8.piece 0xEF (0xBB :: 0xBF :: bytes.toList) = .char '\ufeff' 2 := rfl
  obtain ⟨rfl, -⟩ := Utf8.Piece.char.inj (hmark.symm.trans hpiece)
  refine ⟨String.ofList cs, String.toList_injective ?_⟩
  rw [hs, String.toList_append, toList_mark, String.toList_ofList, List.singleton_append]

/-! ## Latin-1 -/

/-- The bytes of a text in Latin-1, which has no other characters than the first 256. -/
def encodeLatin1? (s : String) : Option ByteArray :=
  (s.toList.mapM fun c => if c.toNat < 256 then some (UInt8.ofNat c.toNat) else none).map
    List.toByteArray

theorem toNat_ofNat_toNat (b : UInt8) : (Char.ofNat b.toNat).toNat = b.toNat := by
  have hb : b.toNat < 256 := b.toNat_lt
  exact Utf8.toNat_val_ofNat (by omega)

theorem map_toNat_latin1 (bytes : ByteArray) :
    (latin1 bytes).toList.map Char.toNat = bytes.toList.map UInt8.toNat := by
  rw [latin1, String.toList_ofList, List.map_map]
  exact List.map_congr_left fun b _ => toNat_ofNat_toNat b

theorem length_latin1 (bytes : ByteArray) : (latin1 bytes).length = bytes.size := by
  rw [latin1, String.length_ofList, List.length_map, length_toList]

theorem encodeLatin1?_latin1 (bytes : ByteArray) : encodeLatin1? (latin1 bytes) = some bytes := by
  have hall (l : List UInt8) : (l.map fun b => Char.ofNat b.toNat).mapM
      (fun c => if c.toNat < 256 then some (UInt8.ofNat c.toNat) else none) = some l := by
    induction l with
    | nil => rfl
    | cons b l ih =>
      rw [List.map_cons, List.mapM_cons, ih, toNat_ofNat_toNat, if_pos b.toNat_lt,
        UInt8.ofNat_toNat]
      rfl
  rw [encodeLatin1?, latin1, String.toList_ofList, hall]
  exact congrArg some (toList_inj (toList_toByteArray bytes.toList))

/-! ## Sources -/

/-- Bytes are read as UTF-8 or not at all. -/
theorem decodeSource_cases (bytes : ByteArray) :
    (∃ s : String, bytes = s.toUTF8 ∧ decodeSource bytes = ⟨withoutMark s, .utf8⟩) ∨
      (∀ s : String, bytes ≠ s.toUTF8) ∧ decodeSource bytes = ⟨latin1 bytes, .latin1⟩ := by
  unfold decodeSource
  cases h : decodeUtf8 bytes with
  | ok s => exact .inl ⟨s, decodeUtf8_eq_ok_iff.mp h, rfl⟩
  | error fault =>
    refine .inr ⟨fun s hs => ?_, rfl⟩
    rw [decodeUtf8_eq_ok_iff.mpr hs] at h
    cases h

/-- What can be said of bytes from the text and the encoding that they are read with. -/
theorem bytes_of_decodeSource (bytes : ByteArray) :
    (decodeSource bytes).encoding = .utf8 ∧
        (bytes = markBytes ++ (decodeSource bytes).text.toUTF8 ∨
          bytes = (decodeSource bytes).text.toUTF8 ∧ ∀ rest, bytes ≠ markBytes ++ rest) ∨
      (decodeSource bytes).encoding = .latin1 ∧ (∀ s : String, bytes ≠ s.toUTF8) ∧
        (decodeSource bytes).text = latin1 bytes := by
  obtain ⟨s, rfl, hsource⟩ | ⟨hno, hsource⟩ := decodeSource_cases bytes
  · rw [hsource]
    refine .inl ⟨rfl, ?_⟩
    obtain hmark | ⟨hsame, hno⟩ := withoutMark_cases s
    · refine .inl ?_
      rw [← toUTF8_mark_append, ← hmark]
    · refine .inr ⟨by rw [hsame], fun bytes hbytes => ?_⟩
      obtain ⟨rest, hrest⟩ := exists_mark_append hbytes
      exact hno rest hrest
  · rw [hsource]
    exact .inr ⟨rfl, hno, rfl⟩

theorem Encoding.name_injective : Function.Injective Encoding.name := by
  intro e e'
  cases e <;> cases e' <;> decide

theorem latin1_injective : Function.Injective latin1 := by
  intro bytes other h
  have hencoded := encodeLatin1?_latin1 bytes
  rw [h, encodeLatin1?_latin1] at hencoded
  exact (Option.some.inj hencoded).symm

/-- Bytes with one text and one encoding are the same but for the mark. -/
theorem eq_or_mark_of_decodeSource_eq {bytes other : ByteArray}
    (htext : (decodeSource other).text = (decodeSource bytes).text)
    (hencoding : (decodeSource other).encoding = (decodeSource bytes).encoding) :
    other = bytes ∨ other = markBytes ++ bytes ∨ bytes = markBytes ++ other := by
  have hother := bytes_of_decodeSource other
  rw [htext, hencoding] at hother
  obtain ⟨hutf8, hbytes⟩ | ⟨hlatin1, -, hbytes⟩ := bytes_of_decodeSource bytes
  · obtain ⟨-, hbytes'⟩ | ⟨hlatin1, -⟩ := hother
    · obtain hmark | ⟨hplain, -⟩ := hbytes <;> obtain hmark' | ⟨hplain', -⟩ := hbytes'
      · exact .inl (hmark'.trans hmark.symm)
      · exact .inr (.inr (hmark.trans (congrArg _ hplain'.symm)))
      · exact .inr (.inl (hmark'.trans (congrArg _ hplain.symm)))
      · exact .inl (hplain'.trans hplain.symm)
    · rw [hutf8] at hlatin1
      cases hlatin1
  · obtain ⟨hutf8, -⟩ | ⟨-, -, hbytes'⟩ := hother
    · rw [hlatin1] at hutf8
      cases hutf8
    · exact .inl (latin1_injective (hbytes'.symm.trans hbytes))

/-- Decoding loses nothing.  Bytes that are read as UTF-8 are those of the text, with one mark in
front or, where they do not start with it, with none.  Bytes that are read as Latin-1 are not those
of any text in UTF-8 and have a fault; each is a character, and they are those of the text in
Latin-1.  So bytes with one text and one encoding differ in one mark at most. -/
theorem decodeSource_lossless (bytes : ByteArray) :
    ((decodeSource bytes).encoding.name = "utf-8" ∧ Utf8.fault? 0 bytes.toList = none ∧
          (bytes = markBytes ++ (decodeSource bytes).text.toUTF8 ∨
            bytes = (decodeSource bytes).text.toUTF8 ∧ ∀ rest, bytes ≠ markBytes ++ rest) ∨
        (decodeSource bytes).encoding.name = "latin-1" ∧
          (∀ s : String, bytes ≠ s.toUTF8) ∧ (Utf8.fault? 0 bytes.toList).isSome = true ∧
          (decodeSource bytes).text.toList.map Char.toNat = bytes.toList.map UInt8.toNat ∧
          (decodeSource bytes).text.length = bytes.size ∧
          encodeLatin1? (decodeSource bytes).text = some bytes) ∧
      ∀ other, (decodeSource other).text = (decodeSource bytes).text →
        (decodeSource other).encoding.name = (decodeSource bytes).encoding.name →
          other = bytes ∨ other = markBytes ++ bytes ∨ bytes = markBytes ++ other := by
  refine ⟨?_, fun other htext hname => ?_⟩
  · obtain ⟨hutf8, hbytes⟩ | ⟨hlatin1, hno, htext⟩ := bytes_of_decodeSource bytes
    · refine .inl ⟨by rw [hutf8]; rfl, exists_toUTF8_iff.mp ?_, hbytes⟩
      obtain hmark | ⟨hplain, -⟩ := hbytes
      · exact ⟨_, hmark.trans (toUTF8_mark_append _).symm⟩
      · exact ⟨_, hplain⟩
    · refine .inr ⟨by rw [hlatin1]; rfl, hno, ?_, ?_, ?_, ?_⟩
      · rw [Option.isSome_iff_ne_none]
        intro hnone
        obtain ⟨s, hs⟩ := exists_toUTF8_iff.mpr hnone
        exact hno s hs
      · rw [htext, map_toNat_latin1]
      · rw [htext, length_latin1]
      · rw [htext, encodeLatin1?_latin1]
  · exact eq_or_mark_of_decodeSource_eq htext (Encoding.name_injective hname)

/-- One letter with a mark in front and without one. -/
theorem decodeSource_lossless_letter :
    (decodeSource ⟨#[0xEF, 0xBB, 0xBF, 0x61]⟩).text = (decodeSource ⟨#[0x61]⟩).text ∧
      (decodeSource ⟨#[0xEF, 0xBB, 0xBF, 0x61]⟩).encoding.name =
        (decodeSource ⟨#[0x61]⟩).encoding.name ∧
      ((⟨#[0xEF, 0xBB, 0xBF, 0x61]⟩ : ByteArray) = ⟨#[0x61]⟩ ∨
        (⟨#[0xEF, 0xBB, 0xBF, 0x61]⟩ : ByteArray) = markBytes ++ ⟨#[0x61]⟩ ∨
        (⟨#[0x61]⟩ : ByteArray) = markBytes ++ ⟨#[0xEF, 0xBB, 0xBF, 0x61]⟩) := by
  have hmarked : decodeSource ⟨#[0xEF, 0xBB, 0xBF, 0x61]⟩ = ⟨"a", .utf8⟩ := by
    rw [decodeSource, decodeUtf8_eq_ok_iff.mpr (by rfl : _ = "\ufeffa".toUTF8)]
    rfl
  have hplain : decodeSource ⟨#[0x61]⟩ = ⟨"a", .utf8⟩ := by
    rw [decodeSource, decodeUtf8_eq_ok_iff.mpr (by rfl : _ = "a".toUTF8)]
    rfl
  have htext := congrArg SourceText.text (hmarked.trans hplain.symm)
  have hname := congrArg (Encoding.name ∘ SourceText.encoding) (hmarked.trans hplain.symm)
  exact ⟨htext, hname, (decodeSource_lossless ⟨#[0x61]⟩).2 _ htext hname⟩

/-! ## Files -/

/-- A file is decoded whole, if it is read at all. -/
theorem SourceText.eq_of_load {α : Type} {bytesOf : α → ByteArray} {t : Files.Disk α}
    {p : Files.Path} {limit : Option Int} {source : SourceText}
    (h : SourceText.load bytesOf t p limit = .ok source) :
    ∃ content, t.read p = .ok content ∧ source = decodeSource (bytesOf content) := by
  unfold SourceText.load SourceText.ofBytes at h
  split at h
  case h_1 => cases h
  case h_2 content hread =>
    split at h
    case h_1 => cases h
    case h_2 =>
      split at h
      case isTrue => cases h
      case isFalse => exact ⟨content, hread, (Except.ok.inj h).symm⟩

/-- Two files that are read as one text are the same but for the mark. -/
theorem SourceText.eq_or_mark_of_load {α : Type} {bytesOf : α → ByteArray} {t : Files.Disk α}
    {p q : Files.Path} {limit limit' : Option Int} {content content' : α} {source : SourceText}
    (hp : t.read p = .ok content) (hq : t.read q = .ok content')
    (hload : SourceText.load bytesOf t p limit = .ok source)
    (hload' : SourceText.load bytesOf t q limit' = .ok source) :
    bytesOf content' = bytesOf content ∨ bytesOf content' = markBytes ++ bytesOf content ∨
      bytesOf content = markBytes ++ bytesOf content' := by
  obtain ⟨c, hc, hsource⟩ := eq_of_load hload
  obtain ⟨c', hc', hsource'⟩ := eq_of_load hload'
  obtain rfl := Except.ok.inj (hc.symm.trans hp)
  obtain rfl := Except.ok.inj (hc'.symm.trans hq)
  have hsame := hsource'.symm.trans hsource
  exact eq_or_mark_of_decodeSource_eq (congrArg text hsame) (congrArg encoding hsame)

end SourceShelf
