import Mathlib.Algebra.Ring.Nat
import Smbfs.Wire.Types

/-!
Conversions between FILETIME and time. A FILETIME counts 100 nanoseconds from
1601, a time counts nanoseconds from 1970 in an `int64`.

* `FiletimeFits`: the count of nanoseconds is an `int64`;
* `filetime_round_trip_iff`: these FILETIMEs come back, no others do, and their
  order is that of the times;
* `filetime_one_wraps`: a FILETIME in 1601 becomes a time in 2185.
-/

namespace Smbfs

/-- The 100 nanoseconds since 1970. -/
def ticks (ft : UInt64) : Int := ft.toNat - windowsEpochOffset.toNat

/-- The nanoseconds since 1970 are an `int64`. -/
def FiletimeFits (ft : UInt64) : Prop :=
  -0x8000000000000000 ≤ ticks ft * 100 ∧ ticks ft * 100 < 0x8000000000000000

instance (ft : UInt64) : Decidable (FiletimeFits ft) := inferInstanceAs (Decidable (_ ∧ _))

variable {ft : UInt64}

/-- The subtraction of the source wraps around, and the conversion undoes it. -/
theorem toInt_sub_epoch (h : ft.toNat < 0x8000000000000000) :
    (ft - windowsEpochOffset).toInt64.toInt = ticks ft := by
  have hoffset : windowsEpochOffset.toNat = 116444736000000000 := rfl
  have hsub := UInt64.toNat_sub ft windowsEpochOffset
  rw [ticks, hoffset]
  change (ft - windowsEpochOffset).toBitVec.toInt = _
  rw [BitVec.toInt_eq_toNat_bmod]
  change Int.bmod ((ft - windowsEpochOffset).toNat : Int) _ = _
  rw [hsub, hoffset]
  simp only [Int.bmod]
  omega

theorem filetimeToTime_eq (hpos : 0 < ft) :
    filetimeToTime ft = ((ft - windowsEpochOffset).toInt64 * 100).toInt := by
  rw [filetimeToTime, if_neg]
  rintro rfl
  exact absurd hpos (by decide)

/-- Way back, the division stands for the multiplication. -/
theorem timeToFiletime_filetimeToTime (hpos : 0 < ft) :
    timeToFiletime (filetimeToTime ft) =
      ((ft - windowsEpochOffset).toInt64 * 100 / 100).toUInt64 + windowsEpochOffset := by
  rw [filetimeToTime_eq hpos, timeToFiletime, if_neg, Int64.ofInt_toInt]
  have hle := ((ft - windowsEpochOffset).toInt64 * 100).le_toInt
  intro hzero
  rw [hzero] at hle
  exact absurd hle (by decide)

theorem toUInt64_add_epoch (x : Int64) :
    x.toUInt64 + windowsEpochOffset = ft ↔ x = (ft - windowsEpochOffset).toInt64 := by
  constructor
  · rintro rfl
    rw [UInt64.add_sub_cancel, Int64.toInt64_toUInt64]
  · rintro rfl
    rw [UInt64.toUInt64_toInt64, UInt64.sub_add_cancel]

/-- The product of the source, without and with an overflow. -/
theorem toInt_nanoseconds (h : ft.toNat < 0x8000000000000000) :
    ((ft - windowsEpochOffset).toInt64 * 100).toInt = (ticks ft * 100).bmod (2 ^ 64) := by
  rw [Int64.toInt_mul, toInt_sub_epoch h]
  rfl

/-- Dividing gets back the factor exactly if the product did not overflow. -/
theorem div_nanoseconds_iff (h : ft.toNat < 0x8000000000000000) :
    (ft - windowsEpochOffset).toInt64 * 100 / 100 = (ft - windowsEpochOffset).toInt64 ↔
      FiletimeFits ft := by
  rw [← Int64.toInt_inj, Int64.toInt_div, toInt_nanoseconds h, toInt_sub_epoch h, FiletimeFits]
  change (((ticks ft * 100).bmod (2 ^ 64)).tdiv 100).bmod (2 ^ 64) = _ ↔ _
  generalize hp : (ticks ft * 100).bmod (2 ^ 64) = p
  -- the remainder is less than 100, and a multiple of 2 ^ 64 where the quotient is right
  have hdiv := Int.mul_tdiv_add_tmod p 100
  have hlow := Int.lt_tmod_of_pos p (show (0 : Int) < 100 by decide)
  have hhigh := Int.tmod_lt_of_pos p (show (0 : Int) < 100 by decide)
  generalize p.tdiv 100 = q at hdiv ⊢
  generalize p.tmod 100 = r at hdiv hlow hhigh
  have hrange : -0x8000000000000000 ≤ p ∧ p < 0x8000000000000000 := by
    rw [← hp]
    exact ⟨Int.le_bmod (by decide), Int.bmod_lt (by decide)⟩
  rw [Int.bmod_eq_of_le (by omega) (by omega)]
  simp only [Int.bmod] at hp
  split at hp <;> omega

/-- **FILETIME.** The FILETIMEs of 63 bits that come back are those whose
nanoseconds fit, and for these the later FILETIME is the later time. -/
theorem filetime_round_trip_iff (ft : UInt64) (hpos : 0 < ft) (h : ft.toNat < 2 ^ 63) :
    (timeToFiletime (filetimeToTime ft) = ft ↔ FiletimeFits ft) ∧
      (FiletimeFits ft → ∀ ft', ft < ft' → ft'.toNat < 2 ^ 63 → FiletimeFits ft' →
        filetimeToTime ft < filetimeToTime ft') := by
  refine ⟨?_, fun hfits ft' hlt h' hfits' => ?_⟩
  · rw [timeToFiletime_filetimeToTime hpos, toUInt64_add_epoch, div_nanoseconds_iff h]
  · have hticks : ticks ft < ticks ft' := by
      have hnat : ft.toNat < ft'.toNat := UInt64.lt_iff_toNat_lt.mp hlt
      unfold ticks
      omega
    unfold FiletimeFits at hfits hfits'
    rw [filetimeToTime_eq hpos, filetimeToTime_eq (UInt64.lt_trans hpos hlt), toInt_nanoseconds h,
      toInt_nanoseconds h', Int.bmod_eq_of_le (by omega) (by omega),
      Int.bmod_eq_of_le (by omega) (by omega)]
    exact Int.mul_lt_mul_of_pos_right hticks (by decide)

/-- The beginning of 2024, and 100 nanoseconds later. -/
theorem filetime_round_trip_2024 :
    timeToFiletime (filetimeToTime 133485408000000000) = 133485408000000000 ∧
      filetimeToTime 133485408000000000 < filetimeToTime 133485408000000001 := by
  obtain ⟨hiff, horder⟩ := filetime_round_trip_iff 133485408000000000 (by decide) (by decide)
  exact ⟨hiff.mpr (by decide),
    horder (by decide) 133485408000000001 (by decide) (by decide) (by decide)⟩

/-- The product for the first FILETIME overflows: it becomes a time after 1970,
comes back as another FILETIME, and is not before the time of a later one. -/
theorem filetime_one_wraps :
    filetimeToTime 1 = 6802270473709551716 ∧
      timeToFiletime (filetimeToTime 1) = 184467440737095517 ∧
      1 < windowsEpochOffset ∧ ¬ filetimeToTime 1 < filetimeToTime windowsEpochOffset := by
  decide

end Smbfs
