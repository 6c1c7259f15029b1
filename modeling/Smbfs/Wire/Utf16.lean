import Mathlib.Data.List.Basic
import Smbfs.Wire.Encoding

/-!
The UTF-16LE codec of `smb2_encoding.go`.

The characters of a `Str` are Unicode scalar values, so none of them is a
surrogate. `decode_encode_eq`: the decoder removes one trailing NUL and gives
back the rest. `utf16_codec`: the two directions, for strings and for bytes that
do not end in a NUL.
-/

namespace Smbfs

/-! ## Code units -/

theorem codeUnits_flatMap (units : List UInt16) : codeUnits (units.flatMap putUint16) = units := by
  induction units with
  | nil => rfl
  | cons u units ih =>
    have hget : getUint16 (putUint16 u) = u := by
      have := getUint16_putUint16 u []
      rwa [List.append_nil] at this
    show getUint16 (putUint16 u) :: codeUnits (units.flatMap putUint16) = u :: units
    rw [hget, ih]

/-- A scalar value is not in the range of the surrogates. -/
theorem toNat_not_surrogate (c : Char) : c.toNat < 0xD800 ∨ 0xDFFF < c.toNat ∧ c.toNat < 0x110000 :=
  c.valid

variable {n : Nat}

theorem isHighSurrogate_ofNat (h : n < 0x10000) :
    isHighSurrogate (UInt16.ofNat n) = (decide (0xD800 ≤ n) && decide (n < 0xDC00)) := by
  simp [isHighSurrogate, UInt16.le_iff_toNat_le, UInt16.lt_iff_toNat_lt, Nat.mod_eq_of_lt h]

theorem isLowSurrogate_ofNat (h : n < 0x10000) :
    isLowSurrogate (UInt16.ofNat n) = (decide (0xDC00 ≤ n) && decide (n < 0xE000)) := by
  simp [isLowSurrogate, UInt16.le_iff_toNat_le, UInt16.lt_iff_toNat_lt, Nat.mod_eq_of_lt h]

theorem toNat_ofNat_unit (h : n < 0x10000) : (UInt16.ofNat n).toNat = n := by
  rw [UInt16.toNat_ofNat']
  exact Nat.mod_eq_of_lt h

/-! ## The first character -/

/-- A unit that is no surrogate is a character. -/
theorem utf16Decode_single {u : UInt16} (hhigh : isHighSurrogate u = false)
    (hlow : isLowSurrogate u = false) (us : List UInt16) :
    utf16Decode (u :: us) = Char.ofNat u.toNat :: utf16Decode us := by
  cases us with
  | nil => simp [utf16Decode, hhigh, hlow]
  | cons v us => simp [utf16Decode, hhigh, hlow]

/-- Two surrogates are a character. -/
theorem utf16Decode_pair {u v : UInt16} (hhigh : isHighSurrogate u = true)
    (hlow : isLowSurrogate v = true) (us : List UInt16) :
    utf16Decode (u :: v :: us) =
      Char.ofNat ((u.toNat - 0xD800) * 1024 + (v.toNat - 0xDC00) + 0x10000) :: utf16Decode us := by
  simp [utf16Decode, hhigh, hlow]

theorem utf16Decode_encode (s : Str) : utf16Decode (utf16Encode s) = s := by
  induction s with
  | nil => rfl
  | cons c s ih =>
    rw [utf16Encode]
    have hscalar := toNat_not_surrogate c
    by_cases hc : c.toNat < 0x10000
    · rw [if_pos hc, utf16Decode_single, ih, toNat_ofNat_unit hc, Char.ofNat_toNat]
      · rw [isHighSurrogate_ofNat hc]
        simp
        omega
      · rw [isLowSurrogate_ofNat hc]
        simp
        omega
    · have hhigh : 0xD800 + (c.toNat - 0x10000) / 1024 < 0x10000 := by omega
      have hlow : 0xDC00 + (c.toNat - 0x10000) % 1024 < 0x10000 := by omega
      rw [if_neg hc, utf16Decode_pair, ih, toNat_ofNat_unit hhigh, toNat_ofNat_unit hlow]
      · -- the two halves of the number that was split
        have hvalue : (0xD800 + (c.toNat - 0x10000) / 1024 - 0xD800) * 1024 +
            (0xDC00 + (c.toNat - 0x10000) % 1024 - 0xDC00) + 0x10000 = c.toNat := by omega
        rw [hvalue, Char.ofNat_toNat]
      · rw [isHighSurrogate_ofNat hhigh]
        simp
        omega
      · rw [isLowSurrogate_ofNat hlow]
        simp
        omega

theorem toNat_ofNat_scalar (h : n < 0xD800 ∨ 0xDFFF < n ∧ n < 0x110000) :
    (Char.ofNat n).toNat = n := by
  have hscalar : Char.ofNat n = Char.ofNatAux n h := dif_pos h
  rw [hscalar]
  rfl

/-- Well-formed UTF-16: a surrogate stands in a pair, the high one first. -/
inductive WellFormedUtf16 : List UInt16 → Prop
  | nil : WellFormedUtf16 []
  | unit {u : UInt16} {us : List UInt16} : isHighSurrogate u = false → isLowSurrogate u = false →
      WellFormedUtf16 us → WellFormedUtf16 (u :: us)
  | pair {u v : UInt16} {us : List UInt16} : isHighSurrogate u = true → isLowSurrogate v = true →
      WellFormedUtf16 us → WellFormedUtf16 (u :: v :: us)

theorem isHighSurrogate_iff (u : UInt16) :
    isHighSurrogate u = true ↔ 0xD800 ≤ u.toNat ∧ u.toNat < 0xDC00 := by
  simp [isHighSurrogate, UInt16.le_iff_toNat_le, UInt16.lt_iff_toNat_lt]

theorem isLowSurrogate_iff (u : UInt16) :
    isLowSurrogate u = true ↔ 0xDC00 ≤ u.toNat ∧ u.toNat < 0xE000 := by
  simp [isLowSurrogate, UInt16.le_iff_toNat_le, UInt16.lt_iff_toNat_lt]

theorem utf16Encode_decode {us : List UInt16} (h : WellFormedUtf16 us) :
    utf16Encode (utf16Decode us) = us := by
  induction h with
  | nil => rfl
  | @unit u us hhigh hlow _ ih =>
    have hlt := u.toNat_lt
    have hchar : (Char.ofNat u.toNat).toNat = u.toNat := by
      apply toNat_ofNat_scalar
      have hnotHigh := (isHighSurrogate_iff u).not.mp (by simp [hhigh])
      have hnotLow := (isLowSurrogate_iff u).not.mp (by simp [hlow])
      omega
    rw [utf16Decode_single hhigh hlow, utf16Encode, hchar, if_pos hlt, ih, UInt16.ofNat_toNat]
  | @pair u v us hhigh hlow _ ih =>
    obtain ⟨hu, hu'⟩ := (isHighSurrogate_iff u).mp hhigh
    obtain ⟨hv, hv'⟩ := (isLowSurrogate_iff v).mp hlow
    have hchar := toNat_ofNat_scalar
      (n := (u.toNat - 0xD800) * 1024 + (v.toNat - 0xDC00) + 0x10000) (by omega)
    have hfirst : 0xD800 + ((u.toNat - 0xD800) * 1024 + (v.toNat - 0xDC00) + 0x10000 - 0x10000) / 1024
        = u.toNat := by omega
    have hsecond : 0xDC00 + ((u.toNat - 0xD800) * 1024 + (v.toNat - 0xDC00) + 0x10000 - 0x10000) % 1024
        = v.toNat := by omega
    rw [utf16Decode_pair hhigh hlow, utf16Encode, hchar, if_neg (by omega), ih, hfirst, hsecond,
      UInt16.ofNat_toNat, UInt16.ofNat_toNat]

/-! ## The trailing NUL -/

/-- The string without one trailing NUL. -/
def stripNul (s : Str) : Str := if s.getLast? = some (Char.ofNat 0) then s.dropLast else s

theorem stripNul_of_getLast? {s : Str} (h : s.getLast? ≠ some (Char.ofNat 0)) : stripNul s = s :=
  if_neg h

theorem utf16Encode_append (s t : Str) : utf16Encode (s ++ t) = utf16Encode s ++ utf16Encode t := by
  induction s with
  | nil => rfl
  | cons c s ih =>
    rw [List.cons_append, utf16Encode, utf16Encode, ih]
    split <;> rfl

/-- Only a NUL ends in a unit that is zero. -/
theorem getLast?_utf16Encode {c : Char} (h : c ≠ Char.ofNat 0) :
    ∃ u, (utf16Encode [c]).getLast? = some u ∧ u ≠ 0 := by
  have hscalar := toNat_not_surrogate c
  have hpos : c.toNat ≠ 0 := by
    intro hzero
    apply h
    rw [← hzero, Char.ofNat_toNat]
  have hunit : ∀ n, n ≠ 0 → n < 0x10000 → UInt16.ofNat n ≠ 0 := by
    intro n hn hlt hzero
    have htoNat := congrArg UInt16.toNat hzero
    rw [toNat_ofNat_unit hlt] at htoNat
    exact hn htoNat
  rw [utf16Encode]
  split
  · next hlt => exact ⟨_, rfl, hunit _ hpos hlt⟩
  · exact ⟨_, rfl, hunit _ (by omega) (by omega)⟩

/-- The decoder takes one NUL from the end. -/
theorem decode_encode_eq (s : Str) :
    decodeUTF16LEToString (encodeStringToUTF16LE s) = stripNul s := by
  rw [decodeUTF16LEToString, encodeStringToUTF16LE, codeUnits_flatMap]
  rcases List.eq_nil_or_concat' s with rfl | ⟨s, c, rfl⟩
  · rfl
  by_cases hc : c = Char.ofNat 0
  · subst hc
    have hnul : utf16Encode [Char.ofNat 0] = [0] := rfl
    rw [utf16Encode_append, hnul, stripNul, List.getLast?_concat, List.getLast?_concat, if_pos rfl,
      if_pos rfl, List.dropLast_concat, List.dropLast_concat, utf16Decode_encode]
  · obtain ⟨u, hu, hne⟩ := getLast?_utf16Encode hc
    have hlast : (utf16Encode (s ++ [c])).getLast? ≠ some 0 := by
      rw [utf16Encode_append, List.getLast?_append, hu]
      simpa using hne
    have hkeep : (s ++ [c]).getLast? ≠ some (Char.ofNat 0) := by
      rw [List.getLast?_concat]
      simpa using hc
    rw [if_neg hlast, stripNul_of_getLast? hkeep, utf16Decode_encode]

theorem decode_encode {s : Str} (h : Char.ofNat 0 ∉ s) :
    decodeUTF16LEToString (encodeStringToUTF16LE s) = s := by
  rw [decode_encode_eq, stripNul_of_getLast?]
  intro hlast
  exact h (List.mem_of_getLast? hlast)

theorem flatMap_codeUnits : ∀ b : Bytes, b.length % 2 = 0 → (codeUnits b).flatMap putUint16 = b
  | [], _ => rfl
  | [_], hodd => absurd hodd Nat.one_ne_zero
  | lo :: hi :: b, heven => by
    have hrest : b.length % 2 = 0 := by
      rw [List.length_cons, List.length_cons] at heven
      omega
    have hbytes : putUint16 (getUint16 [lo, hi]) = [lo, hi] := putUint16_getUint16 (Nat.le_refl 2)
    rw [codeUnits, List.flatMap_cons, hbytes, flatMap_codeUnits b hrest]
    rfl

/-- **UTF-16LE codec.** A string that does not end in a NUL is decoded from its
encoding, and well-formed bytes that do not end in a unit of zero are encoded
from their decoding. -/
theorem utf16_codec :
    (∀ s : Str, s.getLast? ≠ some (Char.ofNat 0) →
      decodeUTF16LEToString (encodeStringToUTF16LE s) = s) ∧
    (∀ b : Bytes, b.length % 2 = 0 → WellFormedUtf16 (codeUnits b) →
      (codeUnits b).getLast? ≠ some 0 →
      encodeStringToUTF16LE (decodeUTF16LEToString b) = b) := by
  constructor
  · intro s hlast
    rw [decode_encode_eq, stripNul_of_getLast? hlast]
  · intro b heven hwf hlast
    rw [encodeStringToUTF16LE, decodeUTF16LEToString]
    simp only [if_neg hlast]
    rw [utf16Encode_decode hwf, flatMap_codeUnits b heven]

theorem utf16_codec_sample :
    decodeUTF16LEToString (encodeStringToUTF16LE ['a', Char.ofNat 0, Char.ofNat 0x1F600]) =
        ['a', Char.ofNat 0, Char.ofNat 0x1F600] ∧
      encodeStringToUTF16LE (decodeUTF16LEToString [0x61, 0, 0x3D, 0xD8, 0, 0xDE]) =
        [0x61, 0, 0x3D, 0xD8, 0, 0xDE] := by
  obtain ⟨hstring, hbytes⟩ := utf16_codec
  refine ⟨hstring _ (by decide), hbytes _ (by decide) ?_ (by decide)⟩
  exact .unit rfl rfl (.pair rfl rfl .nil)

end Smbfs
