import Smbfs.Lib.Cmac
import Smbfs.Lib.CounterMode
import Smbfs.System.Samples

/-!
`kdfSP800108` against the counter mode of SP800-108, for any function with
outputs of 32 bytes in place of HMAC-SHA256.

* `prf`: one block of the derived key, as the standard writes it;
* `kdfBlocks_eq`: by induction on the rounds that are left, the loop lays blocks
  end to end, and ends because there are enough;
* `kdfSP800108_counter_mode`: the key is cut off the front of the blocks.
-/

namespace Smbfs

open Lib

/-- The block of the counter `i`, for a key of `n` bytes: both numbers are written in four
bytes, the most significant byte first. -/
def prf (P : Platform) (ki label context : Bytes) (n i : Nat) : Bytes :=
  P.hmacSHA256 ki (beBytes 4 i ++ label ++ [0] ++ context ++ beBytes 4 (8 * n))

theorem beFrom_putUint32BE (v : UInt32) : beFrom 0 (putUint32BE v) = v.toNat := by
  have hlt := v.toNat_lt
  have h1 : v.toNat >>> 8 = v.toNat / 256 := Nat.shiftRight_eq_div_pow _ _
  have h2 : v.toNat >>> 16 = v.toNat / 65536 := Nat.shiftRight_eq_div_pow _ _
  have h3 : v.toNat >>> 24 = v.toNat / 16777216 := Nat.shiftRight_eq_div_pow _ _
  have hbytes : beFrom 0 (putUint32BE v) =
      256 * (256 * (256 * (v.toNat / 16777216 % 256) + v.toNat / 65536 % 256) +
        v.toNat / 256 % 256) + v.toNat % 256 := by
    simp [putUint32BE, putUint32, UInt32.toNat_shiftRight, h1, h2, h3]
  omega

theorem putUint32BE_ofNat {i : Nat} (h : i < 2 ^ 32) :
    putUint32BE (UInt32.ofNat i) = beBytes 4 i := by
  have hval := beFrom_putUint32BE (UInt32.ofNat i)
  have hback := beBytes_beFrom (putUint32BE (UInt32.ofNat i))
  rw [UInt32.toNat_ofNat', Nat.mod_eq_of_lt h] at hval
  rw [hval] at hback
  exact hback.symm

section Kdf

variable {P : Platform} (hP : ∀ key m, (P.hmacSHA256 key m).length = 32) (ki label context : Bytes)

include hP

theorem length_prf (n i : Nat) : (prf P ki label context n i).length = 32 := hP _ _

/-- The loop, with the blocks of 1 to `i` written. -/
theorem kdfBlocks_eq {n : Nat} (hn : n < 2 ^ 29) (rounds i : Nat) (hrounds : n ≤ 32 * i + rounds) :
    ∃ m, n ≤ 32 * m ∧
      kdfBlocks P ki label context n rounds (UInt32.ofNat (i + 1))
        (counterStream (prf P ki label context n) i) = counterStream (prf P ki label context n) m := by
  have hlength := length_counterStream (length_prf hP ki label context n)
  induction rounds generalizing i with
  | zero => exact ⟨i, hrounds, rfl⟩
  | succ rounds ih =>
    rw [kdfBlocks, hlength]
    by_cases hmore : 32 * i < n
    · have hcounter : UInt32.ofNat (i + 1) + 1 = UInt32.ofNat (i + 1 + 1) := by
        rw [UInt32.ofNat_add (i + 1) 1]
        rfl
      have hblock : P.hmacSHA256 ki (putUint32BE (UInt32.ofNat (i + 1)) ++ label ++ [0] ++ context ++
          putUint32BE (UInt32.ofNat (n * 8))) = prf P ki label context n (i + 1) := by
        rw [prf, putUint32BE_ofNat (by omega), putUint32BE_ofNat (by omega), Nat.mul_comm n 8]
      rw [if_pos hmore]
      dsimp only
      rw [hblock, hcounter, ← counterStream_succ]
      exact ih (i + 1) (by omega)
    · rw [if_neg hmore]
      exact ⟨i, by omega, rfl⟩

/-- **Key derivation in counter mode.** The loop of `kdfSP800108` ends with at least `n` bytes,
and the key is the first `n` bytes of the blocks of 1, 2, …, however many are laid end to end. -/
theorem kdfSP800108_counter_mode {n : Nat} (hn : n < 2 ^ 29) :
    n ≤ (kdfBlocks P ki label context n n 1 []).length ∧
      (kdfSP800108 P ki label context n).length = n ∧
      ∀ m, n ≤ 32 * m → kdfSP800108 P ki label context n =
        (counterStream (prf P ki label context n) m).take n := by
  obtain ⟨m₀, hm₀, hblocks⟩ := kdfBlocks_eq hP ki label context hn n 0 (by omega)
  have hlength := length_counterStream (length_prf hP ki label context n)
  have hloop : kdfBlocks P ki label context n n 1 [] =
      counterStream (prf P ki label context n) m₀ := hblocks
  unfold kdfSP800108
  rw [hloop]
  refine ⟨?_, ?_, fun m hm => ?_⟩
  · rw [hlength]
    exact hm₀
  · rw [List.length_take, hlength]
    omega
  · exact take_counterStream (length_prf hP ki label context n) hm₀ hm

end Kdf

/-- A key of one whole block. -/
theorem kdfSP800108_counter_mode_block :
    kdfSP800108 { samplePlatform with hmacSHA256 := fun _ m => copied 32 m } [1] [2] [3] 32 =
      (counterStream (prf { samplePlatform with hmacSHA256 := fun _ m => copied 32 m }
        [1] [2] [3] 32) 1).take 32 := by
  have hlength : ∀ m, (copied 32 m).length = 32 := fun m => by simp [copied, zeros]
  exact (kdfSP800108_counter_mode (P := { samplePlatform with hmacSHA256 := fun _ m => copied 32 m })
    (fun _ m => hlength m) [1] [2] [3] (by decide)).2.2 1 (by decide)

end Smbfs
