import Mathlib.Data.List.Basic

/-!
The distinguished encoding of ASN.1 values: an element is a tag, the length of
its content and the content. The decoder is strict. Only definite lengths are
read, and only in the shortest of their forms.

* `decodeTlv_short`, `decodeTlv_one`, `decodeTlv_two`: an element whose length is
  in the tag's next byte, in one further byte or in two is read back, whatever
  follows it;
* `expect_of_decodeTlv`, `only_of_decodeTlv`: the same for a reader that knows
  the tag.
-/

namespace Smbfs.Lib.Der

/-- The number that the bytes are, most significant first. -/
def beNat (b : List UInt8) : Nat := b.foldl (fun n d => 256 * n + d.toNat) 0

/-- The length at the front, and what follows it. -/
def decodeLength : List UInt8 → Option (Nat × List UInt8)
  | [] => none
  | b :: rest =>
    if b < 0x80 then some (b.toNat, rest)
    else
      let k := b.toNat - 128
      let digits := rest.take k
      -- no digits is the indefinite form, 127 of them are reserved
      if k = 0 ∨ k = 127 ∨ rest.length < k then none
      -- the length has a shorter form
      else if digits.head? = some 0 ∨ beNat digits < 128 then none
      else some (beNat digits, rest.drop k)

/-- The tag and the content of the element at the front, and what follows it. -/
def decodeTlv : List UInt8 → Option (UInt8 × List UInt8 × List UInt8)
  | [] => none
  | tag :: b =>
    match decodeLength b with
    | none => none
    | some (n, rest) => if rest.length < n then none else some (tag, rest.take n, rest.drop n)

/-- The content of the element at the front, which has this tag, and what follows it. -/
def expect (tag : UInt8) (b : List UInt8) : Option (List UInt8 × List UInt8) :=
  match decodeTlv b with
  | none => none
  | some (t, content, rest) => if t = tag then some (content, rest) else none

/-- The content of the one element that `b` is, which has this tag. -/
def only (tag : UInt8) (b : List UInt8) : Option (List UInt8) :=
  match expect tag b with
  | some (content, []) => some content
  | _ => none

/-- The numbers of an object identifier in base 128, the first bit of a byte set
except in the last of a number; `acc` is the part of the number read so far. -/
def subidentifiers : Option Nat → List UInt8 → Option (List Nat)
  | none, [] => some []
  | some _, [] => none
  | acc, b :: rest =>
    -- a number does not begin with a zero digit
    if acc = none ∧ b = 0x80 then none
    else
      let v := 128 * acc.getD 0 + b.toNat % 128
      if b < 0x80 then (subidentifiers none rest).map (v :: ·) else subidentifiers (some v) rest

/-- An object identifier. Its first two numbers are encoded as one. -/
def decodeOid (b : List UInt8) : Option (List Nat) :=
  match subidentifiers none b with
  | some (x :: xs) => some (if x < 80 then x / 40 :: x % 40 :: xs else 2 :: (x - 80) :: xs)
  | _ => none

variable {tag : UInt8} {data rest : List UInt8} {b : List UInt8}

theorem decodeTlv_of_length
    (h : decodeLength b = some (data.length, data ++ rest)) :
    decodeTlv (tag :: b) = some (tag, data, rest) := by
  simp [decodeTlv, h]

theorem decodeTlv_short (h : data.length < 128) :
    decodeTlv (tag :: UInt8.ofNat data.length :: data ++ rest) = some (tag, data, rest) := by
  have hn : (UInt8.ofNat data.length).toNat = data.length := by
    rw [UInt8.toNat_ofNat']
    omega
  have hlt : UInt8.ofNat data.length < 0x80 := by
    rw [UInt8.lt_iff_toNat_lt, hn]
    exact h
  exact decodeTlv_of_length (by simp [decodeLength, hlt, hn])

theorem decodeTlv_one (h : 128 ≤ data.length) (h' : data.length < 256) :
    decodeTlv (tag :: 0x81 :: UInt8.ofNat data.length :: data ++ rest) =
      some (tag, data, rest) := by
  have hn : (UInt8.ofNat data.length).toNat = data.length := by
    rw [UInt8.toNat_ofNat']
    omega
  have hz : UInt8.ofNat data.length ≠ 0 := by
    intro hz
    rw [hz] at hn
    simp at hn
    omega
  exact decodeTlv_of_length (by simp [decodeLength, beNat, hz, hn, h])

theorem decodeTlv_two (h : 256 ≤ data.length) (h' : data.length < 65536) :
    decodeTlv (tag :: 0x82 :: UInt8.ofNat (data.length / 256) :: UInt8.ofNat data.length :: data ++
      rest) = some (tag, data, rest) := by
  have hhi : (UInt8.ofNat (data.length / 256)).toNat = data.length / 256 := by
    rw [UInt8.toNat_ofNat']
    omega
  have hlo : (UInt8.ofNat data.length).toNat = data.length % 256 := UInt8.toNat_ofNat'
  have hn : 256 * (data.length / 256) + data.length % 256 = data.length := Nat.div_add_mod _ 256
  have hz : UInt8.ofNat (data.length / 256) ≠ 0 := by
    intro hz
    rw [hz] at hhi
    simp at hhi
    omega
  have hmin : 128 ≤ data.length := by omega
  exact decodeTlv_of_length (by simp [decodeLength, beNat, hz, hhi, hlo, hn, hmin])

theorem expect_of_decodeTlv (h : decodeTlv b = some (tag, data, rest)) :
    expect tag b = some (data, rest) := by
  simp [expect, h]

theorem only_of_decodeTlv (h : decodeTlv b = some (tag, data, [])) :
    only tag b = some data := by
  simp [only, expect_of_decodeTlv h]

end Smbfs.Lib.Der
