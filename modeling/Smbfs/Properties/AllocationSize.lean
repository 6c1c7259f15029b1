import Mathlib.Order.Bounds.Basic
import Smbfs.Handlers.File
import Smbfs.Handlers.Info
import Smbfs.System.DirRecords

/-!
Allocation sizes. The size of a file is rounded up to a multiple of 4096 in
three ways: with a mask in an `int64`, with a mask in a `uint64`, and by a
division.

* `roundUp_isLeast`: what the unsigned mask computes;
* `allocationSizes_agree`: all responses tell a client the same size.
-/

namespace Smbfs

/-- The size that a client reads, `n`, is the least multiple of 4096 that holds
the file, wherever it reads it. -/
structure AllocationSizes (info : FileInfo) (n : UInt64) : Prop where
  least : IsLeast {k : Nat | 4096 ∣ k ∧ info.size.toInt ≤ k} n.toNat
  create : ∀ action id, getUint64 ((createResponse action info id).drop 40) = n
  close : ∀ flags, getUint64 ((closeResponse flags (some info)).drop 40) = n
  standard : getUint64 (buildFileStandardInformation info) = n
  all : ∀ (B : Backend) now (of : B.OpenFile) attrs pos,
    getUint64 ((buildFileAllInformation now of info attrs pos).drop 40) = n
  networkOpen : ∀ now attrs,
    getUint64 ((buildFileNetworkOpenInformation now info attrs).drop 32) = n
  directory : ∀ c code fileIndex, DirClass.ofCode code = some c → c.hasInfo = true →
    ∃ entry, formatDirEntry info code fileIndex = some entry ∧ getUint64 (entry.drop 48) = n

/-! ## The three formulas -/

/-- The mask clears the bits of the remainder. -/
theorem toNat_mask (x : UInt64) : (x &&& ~~~4095).toNat = x.toNat / 4096 * 4096 := by
  have hmask : (~~~4095 : UInt64).toNat = 2 ^ 64 - (2 ^ 12 - 1 + 1) := rfl
  apply Nat.eq_of_testBit_eq
  intro i
  rw [UInt64.toNat_and, hmask, Nat.testBit_and, Nat.testBit_two_pow_sub_succ (by decide),
    Nat.testBit_two_pow_sub_one, show 4096 = 2 ^ 12 from rfl, Nat.testBit_mul_two_pow,
    Nat.testBit_div_two_pow]
  by_cases hlow : i < 12
  · simp [hlow]
  · rw [Nat.sub_add_cancel (Nat.le_of_not_lt hlow)]
    by_cases hhigh : i < 64
    · have hle : 12 ≤ i := Nat.le_of_not_lt hlow
      simp [hhigh, hle]
    · -- there are no bits above the word
      have hbit := Nat.testBit_lt_two_pow (x.toNat_lt.trans_le (Nat.pow_le_pow_right (by decide)
        (Nat.le_of_not_lt hhigh)))
      simp [hbit]

/-- The sum of the signed formula may overflow, its bits are still those of the
unsigned one. -/
theorem allocationSize_eq_mask (size : Int64) :
    allocationSize size = (size.toUInt64 + 4095) &&& ~~~4095 := rfl

section Positive

variable {info : FileInfo} (hsize : 0 ≤ info.size.toInt)

include hsize

/-- The sum of the unsigned formulas does not overflow. -/
theorem toNat_roundUp : (info.size.toUInt64 + 4095).toNat = info.size.toInt.toNat + 4095 := by
  have hint : info.size.toInt = (info.size.toUInt64.toNat : Int).bmod (2 ^ 64) :=
    BitVec.toInt_eq_toNat_bmod _
  have hlt := info.size.toUInt64.toNat_lt
  rw [UInt64.toNat_add]
  simp only [Int.bmod] at hint
  change (info.size.toUInt64.toNat + 4095) % 2 ^ 64 = _
  omega

theorem roundUp_isLeast : IsLeast {k : Nat | 4096 ∣ k ∧ info.size.toInt ≤ k}
    ((info.size.toUInt64 + 4095) &&& ~~~4095).toNat := by
  rw [toNat_mask, toNat_roundUp hsize]
  constructor
  · exact ⟨Nat.dvd_mul_left _ _, by omega⟩
  · rintro k ⟨⟨q, rfl⟩, hk⟩
    omega

theorem roundedSize_eq_mask : roundedSize info = (info.size.toUInt64 + 4095) &&& ~~~4095 := by
  have hsum := toNat_roundUp hsize
  have hlt := (info.size.toUInt64 + 4095).toNat_lt
  rw [roundedSize]
  split
  case isTrue =>
    apply UInt64.toNat.inj
    rw [toNat_mask, UInt64.toNat_mul, UInt64.toNat_div]
    change (info.size.toUInt64 + 4095).toNat / 4096 * 4096 % 2 ^ 64 = _
    omega
  case isFalse hzero =>
    have hzero : info.size.toUInt64 = 0 := by
      simpa using hzero
    rw [hzero]
    rfl

end Positive

/-! ## The responses -/

/-- A field behind the first `k` bytes. -/
theorem getUint64_field (front : Bytes) {b : Bytes} {n : UInt64} {k : Nat} (hk : front.length = k)
    (hb : ∃ back, b = front ++ (putUint64 n ++ back)) : getUint64 (b.drop k) = n := by
  obtain ⟨back, rfl⟩ := hb
  rw [List.drop_left' hk, getUint64_putUint64]

/-- **Allocation sizes agree.** For a regular file of any size, up to the
largest `int64`, all responses have the same allocation size. -/
theorem allocationSizes_agree (info : FileInfo) (hfile : info.isDir = false)
    (hsize : 0 ≤ info.size.toInt) : ∃ n, AllocationSizes info n := by
  let t := putUint64 (timeToFiletime info.modTime)
  refine ⟨(info.size.toUInt64 + 4095) &&& ~~~4095, ⟨roundUp_isLeast hsize, ?_, ?_, ?_, ?_, ?_, ?_⟩⟩
  · intro action id
    refine getUint64_field
      (putUint16 89 ++ [0, 0] ++ putUint32 action.code ++ t ++ t ++ t ++ t) (by rfl) ?_
    simp only [createResponse, fileTimesAndSizes, allocationSize_eq_mask, List.append_assoc]
    exact ⟨_, rfl⟩
  · intro flags
    refine getUint64_field
      (putUint16 60 ++ putUint16 flags ++ putUint32 0 ++ t ++ t ++ t ++ t) (by rfl) ?_
    simp only [closeResponse, fileTimesAndSizes, allocationSize_eq_mask, List.append_assoc]
    exact ⟨_, rfl⟩
  · rw [buildFileStandardInformation, roundedSize_eq_mask hsize, List.append_assoc,
      List.append_assoc, List.append_assoc, getUint64_putUint64]
  · intro B now of attrs pos
    refine getUint64_field (putUint64 (timeToFiletime now) ++ t ++ t ++ t ++
      putUint32 attrs ++ putUint32 0) (by rfl) ?_
    simp only [buildFileAllInformation, buildFileBasicInformation, buildFileStandardInformation,
      roundedSize_eq_mask hsize, List.append_assoc]
    exact ⟨_, rfl⟩
  · intro now attrs
    refine getUint64_field (putUint64 (timeToFiletime now) ++ t ++ t ++ t) (by rfl) ?_
    simp only [buildFileNetworkOpenInformation, roundedSize_eq_mask hsize, List.append_assoc]
    exact ⟨_, rfl⟩
  · intro c code fileIndex hc hinfo
    obtain ⟨more, hmore⟩ := entryBytes_base hinfo info fileIndex
    refine ⟨_, formatDirEntry_eq hc info fileIndex, ?_⟩
    refine getUint64_field (entryFront info fileIndex ++ putUint64 info.size.toUInt64)
      (by rfl) ?_
    rw [hmore, hfile]
    exact ⟨_, (List.append_assoc ..).symm⟩

/-- The largest size: the sum of the signed formula overflows. -/
theorem allocationSizes_agree_max :
    ∃ n, AllocationSizes ⟨['f'], 0x7fffffffffffffff, 0o644, 0, false⟩ n :=
  allocationSizes_agree _ rfl (by decide)

end Smbfs
