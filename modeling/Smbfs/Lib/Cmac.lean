import Mathlib.Algebra.Ring.Nat
import Mathlib.Data.List.Induction

/-!
AES-CMAC as RFC 4493 defines it, over blocks of 128 bits and for any function on
them in place of AES.

* `ofBytes`, `toBytes`: sixteen bytes as a block, the most significant byte first;
* `dbl`: the shift by one bit with the reduction by `0x87`;
* `maskedBlocks`: the blocks of a message, the last one padded and masked by a subkey;
* `cmac`: CBC-MAC over them, from the zero block.

Behind the definitions stand the rules that carry a computation on bytes over to
blocks: `ofBytes_zipWith_xor` and `ofBytes_eq_shiftLeft`.
-/

namespace Smbfs.Lib

/-! ## Bytes as a number -/

/-- The number that the bytes write, the most significant byte first, behind `n`. -/
def beFrom (n : Nat) (bs : List UInt8) : Nat := bs.foldl (fun n b => 256 * n + b.toNat) n

@[simp] theorem beFrom_nil (n : Nat) : beFrom n [] = n := rfl

@[simp] theorem beFrom_cons (n : Nat) (b : UInt8) (bs : List UInt8) :
    beFrom n (b :: bs) = beFrom (256 * n + b.toNat) bs := rfl

theorem beFrom_append (n : Nat) (bs cs : List UInt8) :
    beFrom n (bs ++ cs) = beFrom (beFrom n bs) cs := List.foldl_append

/-- What stands in front counts `256 ^ bs.length` times. -/
theorem beFrom_eq (n : Nat) (bs : List UInt8) :
    beFrom n bs = n * 256 ^ bs.length + beFrom 0 bs := by
  induction bs generalizing n with
  | nil => simp
  | cons b bs ih =>
    rw [beFrom_cons, beFrom_cons, ih, ih (256 * 0 + b.toNat), List.length_cons, Nat.pow_succ,
      Nat.add_mul, Nat.add_mul]
    have hshift : 256 * n * 256 ^ bs.length = n * (256 ^ bs.length * 256) := by
      rw [Nat.mul_comm 256 n, Nat.mul_assoc, Nat.mul_comm 256]
    omega

theorem beFrom_lt (bs : List UInt8) : beFrom 0 bs < 256 ^ bs.length := by
  induction bs using List.reverseRecOn with
  | nil => exact Nat.one_pos
  | append_singleton bs b ih =>
    have hb := b.toNat_lt
    rw [beFrom_append, beFrom_cons, beFrom_nil, List.length_append, List.length_singleton,
      Nat.pow_succ]
    omega

/-- The last `k` bytes of a number. -/
def beBytes : Nat → Nat → List UInt8
  | 0, _ => []
  | k + 1, n => beBytes k (n / 256) ++ [UInt8.ofNat n]

@[simp] theorem length_beBytes (k n : Nat) : (beBytes k n).length = k := by
  induction k generalizing n with
  | zero => rfl
  | succ k ih => rw [beBytes, List.length_append, ih, List.length_singleton]

theorem beFrom_beBytes (k n : Nat) : beFrom 0 (beBytes k n) = n % 256 ^ k := by
  induction k generalizing n with
  | zero => simp [beBytes, Nat.mod_one]
  | succ k ih =>
    have hbyte : (UInt8.ofNat n).toNat = n % 256 := UInt8.toNat_ofNat'
    rw [beBytes, beFrom_append, ih, beFrom_cons, beFrom_nil, hbyte, Nat.pow_succ,
      Nat.mul_comm (256 ^ k), Nat.mod_mul, Nat.add_comm]

theorem beBytes_beFrom (bs : List UInt8) : beBytes bs.length (beFrom 0 bs) = bs := by
  induction bs using List.reverseRecOn with
  | nil => rfl
  | append_singleton bs b ih =>
    have hb := b.toNat_lt
    have hdiv : (256 * beFrom 0 bs + b.toNat) / 256 = beFrom 0 bs := by omega
    have hmod : UInt8.ofNat (256 * beFrom 0 bs + b.toNat) = b := by
      apply UInt8.toNat.inj
      rw [UInt8.toNat_ofNat']
      omega
    rw [beFrom_append, beFrom_cons, beFrom_nil, List.length_append, List.length_singleton, beBytes,
      hdiv, hmod, ih]

/-- Eight more bits on both sides. -/
theorem xor_bytes (x y : Nat) (a b : UInt8) :
    (256 * x + a.toNat) ^^^ (256 * y + b.toNat) = 256 * (x ^^^ y) + (a ^^^ b).toNat := by
  have ha : a.toNat < 2 ^ 8 := a.toNat_lt
  have hb : b.toNat < 2 ^ 8 := b.toNat_lt
  have hab : (a ^^^ b).toNat < 2 ^ 8 := (a ^^^ b).toNat_lt
  apply Nat.eq_of_testBit_eq
  intro i
  rw [Nat.testBit_xor, show 256 = 2 ^ 8 from rfl, Nat.testBit_two_pow_mul_add x ha,
    Nat.testBit_two_pow_mul_add y hb, Nat.testBit_two_pow_mul_add _ hab, UInt8.toNat_xor]
  split <;> rw [Nat.testBit_xor]

theorem beFrom_zipWith_xor (x y : Nat) {as bs : List UInt8} (h : as.length = bs.length) :
    beFrom (x ^^^ y) (List.zipWith (· ^^^ ·) as bs) = beFrom x as ^^^ beFrom y bs := by
  induction as generalizing x y bs with
  | nil =>
    cases bs with
    | nil => rfl
    | cons b bs => cases h
  | cons a as ih =>
    cases bs with
    | nil => cases h
    | cons b bs =>
      rw [List.zipWith_cons_cons, beFrom_cons, beFrom_cons, beFrom_cons, ← xor_bytes]
      exact ih _ _ (Nat.succ.inj h)

/-! ## Blocks -/

abbrev Block := BitVec 128

/-- The block of sixteen bytes. -/
def ofBytes (bs : List UInt8) : Block := BitVec.ofNat 128 (beFrom 0 bs)

/-- The sixteen bytes of a block. -/
def toBytes (x : Block) : List UInt8 := beBytes 16 x.toNat

@[simp] theorem length_toBytes (x : Block) : (toBytes x).length = 16 := length_beBytes _ _

@[simp] theorem ofBytes_toBytes (x : Block) : ofBytes (toBytes x) = x := by
  have hlt : x.toNat < 256 ^ 16 := x.isLt
  rw [ofBytes, toBytes, beFrom_beBytes, Nat.mod_eq_of_lt hlt, BitVec.ofNat_toNat, BitVec.setWidth_eq]

variable {bs : List UInt8}

theorem toNat_ofBytes (h : bs.length = 16) : (ofBytes bs).toNat = beFrom 0 bs := by
  have hlt := beFrom_lt bs
  rw [h] at hlt
  rw [ofBytes, BitVec.toNat_ofNat]
  exact Nat.mod_eq_of_lt hlt

theorem toBytes_ofBytes (h : bs.length = 16) : toBytes (ofBytes bs) = bs := by
  rw [toBytes, toNat_ofBytes h, ← h, beBytes_beFrom]

/-- What stands in front of sixteen bytes is cut off. -/
theorem ofBytes_beFrom (n : Nat) (h : bs.length = 16) :
    BitVec.ofNat 128 (beFrom n bs) = ofBytes bs := by
  apply BitVec.eq_of_toNat_eq
  rw [ofBytes, beFrom_eq, h, BitVec.toNat_ofNat, BitVec.toNat_ofNat]
  exact Nat.mul_add_mod_self_right n (256 ^ 16) (beFrom 0 bs)

theorem ofBytes_zipWith_xor {as bs : List UInt8} (h : as.length = bs.length) :
    ofBytes (List.zipWith (· ^^^ ·) as bs) = ofBytes as ^^^ ofBytes bs := by
  have hxor := beFrom_zipWith_xor 0 0 h
  rw [Nat.xor_self] at hxor
  rw [ofBytes, hxor, BitVec.ofNat_xor]
  rfl

/-- Sixteen bytes that are those of `bs` moved up by one bit. -/
theorem ofBytes_eq_shiftLeft {as bs : List UInt8} {n : Nat} (ha : as.length = 16)
    (h : beFrom n as = 2 * beFrom 0 bs) : ofBytes as = ofBytes bs <<< 1 := by
  rw [← ofBytes_beFrom n ha, h]
  apply BitVec.eq_of_toNat_eq
  rw [BitVec.toNat_ofNat, BitVec.toNat_shiftLeft, ofBytes, BitVec.toNat_ofNat, Nat.shiftLeft_eq,
    Nat.mul_comm 2, Nat.mod_mul_mod]

/-- The first bit is the first one of the first byte. -/
theorem msb_ofBytes {b : UInt8} (h : bs.length = 15) :
    (ofBytes (b :: bs)).msb = decide (128 ≤ b.toNat) := by
  have hlt := beFrom_lt bs
  rw [h] at hlt
  rw [BitVec.msb_eq_decide, toNat_ofBytes (by rw [List.length_cons, h]), beFrom_cons, beFrom_eq, h]
  refine decide_eq_decide.mpr ?_
  have hpow : 2 ^ (128 - 1) = 128 * 256 ^ 15 := by decide
  rw [hpow]
  omega

/-- A byte on the last one of sixteen. -/
theorem ofBytes_xor_last (bs : List UInt8) (a b : UInt8) :
    ofBytes (bs ++ [a ^^^ b]) = ofBytes (bs ++ [a]) ^^^ BitVec.ofNat 128 b.toNat := by
  have hxor := xor_bytes (beFrom 0 bs) 0 a b
  rw [Nat.xor_zero, Nat.mul_zero, Nat.zero_add] at hxor
  simp only [ofBytes, beFrom_append, beFrom_cons, beFrom_nil]
  rw [← hxor, BitVec.ofNat_xor]

/-! ## The algorithm -/

/-- The double of a block: a shift to the left by one bit, and `0x87` where a bit is lost. -/
def dbl (x : Block) : Block := if x.msb then x <<< 1 ^^^ 0x87#128 else x <<< 1

section Cmac

variable (E : Block → Block)

def subkey1 : Block := dbl (E 0)
def subkey2 : Block := dbl (subkey1 E)

/-- Less than sixteen bytes, filled up with one bit and zeros. -/
def padded (m : List UInt8) : List UInt8 := m ++ 0x80 :: List.replicate (15 - m.length) 0

/-- The last block, of at most sixteen bytes. -/
def maskedLast (k1 k2 : Block) (m : List UInt8) : Block :=
  if m.length = 16 then ofBytes m ^^^ k1 else ofBytes (padded m) ^^^ k2

/-- The blocks of a message. There is always a last one, also in the empty message. -/
def maskedBlocks (k1 k2 : Block) (m : List UInt8) : List Block :=
  if m.length ≤ 16 then [maskedLast k1 k2 m]
  else ofBytes (m.take 16) :: maskedBlocks k1 k2 (m.drop 16)
termination_by m.length
decreasing_by
  rw [List.length_drop]
  omega

/-- CBC-MAC behind the block `x`. -/
def cbcFrom (x : Block) (blocks : List Block) : Block := blocks.foldl (fun x b => E (x ^^^ b)) x

/-- AES-CMAC. -/
def cmac (m : List UInt8) : Block := cbcFrom E 0 (maskedBlocks (subkey1 E) (subkey2 E) m)

end Cmac

variable {m : List UInt8}

theorem maskedBlocks_of_le {k1 k2 : Block} (h : m.length ≤ 16) :
    maskedBlocks k1 k2 m = [maskedLast k1 k2 m] := by
  rw [maskedBlocks, if_pos h]

theorem maskedBlocks_of_lt {k1 k2 : Block} (h : 16 < m.length) :
    maskedBlocks k1 k2 m = ofBytes (m.take 16) :: maskedBlocks k1 k2 (m.drop 16) := by
  rw [maskedBlocks, if_neg (Nat.not_le.mpr h)]

/-- The blocks by their numbers: `j` complete ones, and the rest. -/
theorem maskedBlocks_eq (k1 k2 : Block) {j : Nat} (hle : m.length ≤ 16 * (j + 1))
    (hlt : j = 0 ∨ 16 * j < m.length) :
    maskedBlocks k1 k2 m = (List.range j).map (fun i => ofBytes ((m.drop (i * 16)).take 16)) ++
      [maskedLast k1 k2 (m.drop (j * 16))] := by
  induction j generalizing m with
  | zero => exact maskedBlocks_of_le hle
  | succ j ih =>
    have hmore : 16 * (j + 1) < m.length := by omega
    have hrest := List.length_drop (i := 16) (l := m)
    rw [maskedBlocks_of_lt (by omega), ih (by omega) (by omega), List.range_succ_eq_map,
      List.map_cons, List.map_map, List.cons_append]
    have hnext : ∀ i, (m.drop 16).drop (i * 16) = m.drop ((i + 1) * 16) := by
      intro i
      rw [List.drop_drop]
      congr 1
      omega
    simp only [Function.comp_def, hnext, Nat.zero_mul, List.drop_zero, Nat.succ_eq_add_one]

theorem length_padded (h : m.length < 16) : (padded m).length = 16 := by
  rw [padded, List.length_append, List.length_cons, List.length_replicate]
  omega

end Smbfs.Lib
