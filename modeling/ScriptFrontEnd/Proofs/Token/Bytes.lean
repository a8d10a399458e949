import ScriptFrontEnd.Grammar.Munch
import ScriptFrontEnd.Proofs.Token.Spelling

namespace ScriptFrontEnd

namespace Byte

def unit (b : UInt8) : Char :=
  if b < 128 then Char.ofUInt8 b else strayByte

theorem forall_iff {P : UInt8 → Prop} : (∀ b, P b) ↔ ∀ n < 256, P (UInt8.ofNat n) := by
  constructor
  · exact fun h n _ => h (UInt8.ofNat n)
  · intro h b
    have hb := h b.toNat b.toNat_lt
    rwa [UInt8.ofNat_toNat] at hb

theorem isWhitespace_unit (b : UInt8) : (unit b).isWhitespace ↔ IsBlank b := by
  revert b
  rw [forall_iff]
  decide +kernel

theorem isWordChar_unit (b : UInt8) : isWordChar (unit b) ↔ IsWord b := by
  revert b
  rw [forall_iff]
  decide +kernel

theorem isDigit_unit (b : UInt8) : (unit b).isDigit ↔ IsDigit b := by
  revert b
  rw [forall_iff]
  decide +kernel

theorem not_isDigit_of_isWord {b : UInt8} (h : IsWord b) : ¬ IsDigit b := by
  rw [← isDigit_unit]
  exact not_isDigit_of_isWordChar ((isWordChar_unit b).mpr h)

theorem lt_of_class {b : UInt8} (h : IsWord b ∨ IsDigit b) : b < 128 := by
  revert b
  rw [forall_iff]
  decide +kernel

theorem toNat_unit {b : UInt8} (h : b < 128) : (unit b).toNat = b.toNat := by
  rw [unit, if_pos h]
  rfl

theorem toNat_toUInt8 {c : Char} (hc : c.toNat < 128) : c.toUInt8.toNat = c.toNat := by
  have h : c.toUInt8.toNat = c.toNat % 256 := rfl
  omega

theorem toUInt8_lt {c : Char} (hc : c.toNat < 128) : c.toUInt8 < 128 := by
  rw [UInt8.lt_iff_toNat_lt, toNat_toUInt8 hc]
  exact hc

theorem unit_toUInt8 {c : Char} (hc : c.toNat < 128) : unit c.toUInt8 = c := by
  rw [← Char.toNat_inj, toNat_unit (toUInt8_lt hc), toNat_toUInt8 hc]

theorem toUInt8_unit {b : UInt8} (h : b < 128) : (unit b).toUInt8 = b := by
  have hc : (unit b).toNat < 128 := by
    rw [toNat_unit h]
    exact UInt8.lt_iff_toNat_lt.mp h
  rw [← UInt8.toNat_inj, toNat_toUInt8 hc, toNat_unit h]

theorem unit_eq_iff {c : Char} (hc : c.toNat < 128) (b : UInt8) : unit b = c ↔ b = c.toUInt8 := by
  constructor
  · intro h
    by_cases hb : b < 128
    · rw [← h, toUInt8_unit hb]
    · rw [unit, if_neg hb] at h
      rw [← h] at hc
      exact absurd hc (by decide)
  · rintro rfl
    exact unit_toUInt8 hc

theorem ofPunctuation?_unit {b : UInt8} {k : Kind} :
    Kind.ofPunctuation? (unit b) = some k ↔ ∃ c, (c, k) ∈ Kind.punctuation ∧ b = c.toUInt8 := by
  have hascii : ∀ p ∈ Kind.punctuation, p.1.toNat < 128 := by decide
  constructor
  · intro h
    have hmem := mem_punctuation_of_ofPunctuation? h
    exact ⟨unit b, hmem, (unit_eq_iff (hascii _ hmem) b).mp rfl⟩
  · rintro ⟨c, hc, rfl⟩
    rw [unit_toUInt8 (hascii _ hc)]
    exact ofPunctuation?_of_mem hc

end Byte

open Byte

theorem le_of_mem_utf8EncodeChar {c : Char} (hc : ¬ c.toNat < 128) :
    ∀ b ∈ String.utf8EncodeChar c, 128 ≤ b.toNat := by
  have hc : ¬ c.val.toNat ≤ 127 := fun h => hc (Nat.lt_succ_of_le h)
  intro b hb
  simp only [String.utf8EncodeChar, if_neg hc] at hb
  split_ifs at hb
  all_goals
    simp only [List.mem_cons, List.not_mem_nil, or_false] at hb
    rcases hb with rfl | rfl | rfl | rfl <;> rw [UInt8.toNat_ofNat'] <;> omega

theorem utf8EncodeChar_of_lt {c : Char} (hc : c.toNat < 128) :
    String.utf8EncodeChar c = [c.toUInt8] := by
  have hsize := length_charUnits c
  rw [charUnits, if_pos hc] at hsize
  exact String.utf8EncodeChar_eq_singleton hsize.symm

theorem map_unit_utf8EncodeChar (c : Char) :
    (String.utf8EncodeChar c).map unit = charUnits c := by
  by_cases hc : c.toNat < 128
  · rw [utf8EncodeChar_of_lt hc, charUnits, if_pos hc, List.map_singleton, unit_toUInt8 hc]
  · have hstray : ∀ b ∈ String.utf8EncodeChar c, unit b = strayByte := by
      intro b hb
      refine if_neg fun hlt => ?_
      have hle := le_of_mem_utf8EncodeChar hc b hb
      have hlt := UInt8.lt_iff_toNat_lt.mp hlt
      exact absurd hlt (Nat.not_lt.mpr hle)
    rw [charUnits, if_neg hc, List.map_eq_replicate_iff.mpr hstray, String.length_utf8EncodeChar]

theorem utf8_eq_flatMap (s : String) : utf8 s = s.toList.flatMap String.utf8EncodeChar := by
  rw [utf8, String.toUTF8_eq_toByteArray, ← String.utf8Encode_toList, List.utf8Encode,
    List.toList_data_toByteArray]

theorem map_unit_utf8 (s : String) : (utf8 s).map unit = units s := by
  rw [utf8_eq_flatMap, List.map_flatMap, units]
  exact congrArg (s.toList.flatMap ·) (funext map_unit_utf8EncodeChar)

theorem utf8_append (s t : String) : utf8 (s ++ t) = utf8 s ++ utf8 t := by
  simp [utf8]

theorem utf8_inj {s t : String} : utf8 s = utf8 t ↔ s = t := by
  rw [utf8, utf8, Array.toList_inj, ← ByteArray.ext_iff]
  exact String.toByteArray_inj

theorem utf8_ofList_map_unit {bs : List UInt8} (h : ∀ b ∈ bs, b < 128) :
    utf8 (String.ofList (bs.map unit)) = bs := by
  rw [utf8_eq_flatMap, String.toList_ofList, List.flatMap_map]
  induction bs with
  | nil => rfl
  | cons b bs ih =>
    obtain ⟨hb, hbs⟩ := List.forall_mem_cons.mp h
    have hunit : (unit b).toNat < 128 := by
      rw [toNat_unit hb]
      exact UInt8.lt_iff_toNat_lt.mp hb
    rw [List.flatMap_cons, utf8EncodeChar_of_lt hunit, toUInt8_unit hb, ih hbs,
      List.singleton_append]

end ScriptFrontEnd
