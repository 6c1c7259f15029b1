import Mathlib.Data.Nat.Bitwise
import Smbfs.Lib.Cmac
import Smbfs.System.Samples

/-!
Message signatures, `smb2_signing.go`.

* `computeAESCMAC_rfc4493`: the loops of `computeAESCMAC` compute the MAC of
  RFC 4493, for every function on blocks in the place of AES;
* `signatures_verify`: `SignMessage` leaves out the signature field,
  `ApplySignature` writes only that field, and `VerifySignature` accepts exactly
  the MAC of the message with the field zeroed.
-/

namespace Smbfs

open Smbfs.Lib

/-! ## Bytes and blocks -/

theorem length_xorBytes (dst src : Bytes) : (xorBytes dst src).length = dst.length := by
  rw [xorBytes, List.length_append, List.length_zipWith, List.length_drop]
  omega

theorem ofBytes_xorBytes {dst src : Bytes} (h : dst.length = src.length) :
    ofBytes (xorBytes dst src) = ofBytes dst ^^^ ofBytes src := by
  have hall : dst.drop src.length = [] := List.drop_eq_nil_of_le (by omega)
  rw [xorBytes, hall, List.append_nil, ofBytes_zipWith_xor h]

/-- The loop of `shiftLeft`, with the bit that it carries out. -/
def shiftLoop (src : Bytes) : Bytes × UInt8 :=
  src.foldr (fun (b : UInt8) ((dst, overflow) : Bytes × UInt8) =>
    ((b <<< 1 ||| overflow) :: dst, b >>> 7)) ([], 0)

theorem toNat_shift_or {b overflow : UInt8} (h : overflow.toNat < 2) :
    (b <<< 1 ||| overflow).toNat = 2 * b.toNat % 256 + overflow.toNat := by
  have hb := b.toNat_lt
  have hshift : (b <<< 1).toNat = (b.toNat % 128) <<< 1 := by
    rw [UInt8.toNat_shiftLeft, Nat.shiftLeft_eq, Nat.shiftLeft_eq]
    change b.toNat * 2 % 256 = _
    omega
  rw [UInt8.toNat_or, hshift, ← Nat.shiftLeft_add_eq_or_of_lt (by simpa using h), Nat.shiftLeft_eq]
  omega

theorem toNat_shiftRight_seven (b : UInt8) : (b >>> 7).toNat = b.toNat / 128 := by
  rw [UInt8.toNat_shiftRight, Nat.shiftRight_eq_div_pow]
  rfl

/-- The loop doubles the number, behind whatever stands in front of it. -/
theorem shiftLoop_spec (src : Bytes) :
    (shiftLoop src).1.length = src.length ∧ (shiftLoop src).2.toNat < 2 ∧
      ∀ n, beFrom (2 * n + (shiftLoop src).2.toNat) (shiftLoop src).1 = 2 * beFrom n src := by
  induction src with
  | nil => exact ⟨rfl, by decide, fun n => rfl⟩
  | cons b src ih =>
    obtain ⟨hlen, hbit, hnum⟩ := ih
    have hb := b.toNat_lt
    have hloop : shiftLoop (b :: src) =
        ((b <<< 1 ||| (shiftLoop src).2) :: (shiftLoop src).1, b >>> 7) := rfl
    rw [hloop]
    refine ⟨by rw [List.length_cons, hlen, List.length_cons], ?_, fun n => ?_⟩
    · rw [toNat_shiftRight_seven]
      omega
    · rw [beFrom_cons, beFrom_cons, ← hnum, toNat_shift_or hbit, toNat_shiftRight_seven]
      congr 1
      omega

theorem length_shiftLeft (src : Bytes) : (shiftLeft src).length = src.length :=
  (shiftLoop_spec src).1

variable {src : Bytes}

theorem ofBytes_shiftLeft (h : src.length = 16) : ofBytes (shiftLeft src) = ofBytes src <<< 1 := by
  refine ofBytes_eq_shiftLeft ((length_shiftLeft src).trans h) (n := (shiftLoop src).2.toNat) ?_
  have hnum := (shiftLoop_spec src).2.2 0
  rw [Nat.mul_zero, Nat.zero_add] at hnum
  exact hnum

theorem and_0x80_ne_zero (b : UInt8) : b &&& 0x80 ≠ 0 ↔ 128 ≤ b.toNat := by
  have hb := b.toNat_lt
  have hbit : (b &&& 0x80).toNat = (b.toNat.testBit 7).toNat * 128 := by
    rw [UInt8.toNat_and]
    exact Nat.and_two_pow b.toNat 7
  rw [Ne, ← UInt8.toNat_inj, hbit, Nat.testBit_eq_decide_div_mod_eq]
  change ¬ (decide (b.toNat / 128 % 2 = 1)).toNat * 128 = 0 ↔ _
  by_cases h : b.toNat / 128 % 2 = 1
  · rw [decide_eq_true h]
    exact iff_of_true (by decide) (by omega)
  · rw [decide_eq_false h]
    exact iff_of_false (by decide) (by omega)

theorem modify_append_singleton {α : Type} (init : List α) (last : α) (f : α → α) :
    (init ++ [last]).modify init.length f = init ++ [f last] := by
  induction init with
  | nil => rfl
  | cons a init ih => exact congrArg (a :: ·) ih

theorem length_cmacDouble (l : Bytes) : (cmacDouble l).length = l.length := by
  unfold cmacDouble
  split
  · rw [List.length_modify, length_shiftLeft]
  · exact length_shiftLeft l

theorem ofBytes_cmacDouble {l : Bytes} (h : l.length = 16) :
    ofBytes (cmacDouble l) = dbl (ofBytes l) := by
  have hmsb : l.headD 0 &&& 0x80 ≠ 0 ↔ (ofBytes l).msb = true := by
    cases l with
    | nil => cases h
    | cons b l =>
      rw [List.headD_cons, and_0x80_ne_zero, msb_ofBytes (Nat.succ.inj h), decide_eq_true_eq]
  unfold cmacDouble dbl
  split
  · next hbit =>
    rw [if_pos (hmsb.mp hbit), ← ofBytes_shiftLeft h]
    have hlen := (length_shiftLeft l).trans h
    obtain hnil | ⟨init, last, hsplit⟩ := List.eq_nil_or_concat' (shiftLeft l)
    · rw [hnil] at hlen
      cases hlen
    · rw [hsplit, List.length_append, List.length_singleton] at hlen
      have hinit : init.length = 15 := by omega
      rw [hsplit, ← hinit, modify_append_singleton, ofBytes_xor_last]
      rfl
  · next hbit => rw [if_neg fun hyes => hbit (hmsb.mpr hyes), ofBytes_shiftLeft h]

/-! ## AES-CMAC -/

/-- The function on blocks that one on bytes stands for. -/
def onBlocks (f : Bytes → Bytes) (x : Block) : Block := ofBytes (f (toBytes x))

/-- The function on bytes for one on blocks. -/
def onBytes (E : Block → Block) (b : Bytes) : Bytes := toBytes (E (ofBytes b))

theorem onBlocks_onBytes (E : Block → Block) : onBlocks (onBytes E) = E := by
  funext x
  rw [onBlocks, onBytes, ofBytes_toBytes, ofBytes_toBytes]

theorem length_onBytes (E : Block → Block) (b : Bytes) : (onBytes E b).length = 16 := by
  rw [onBytes, length_toBytes]

theorem copied_of_length {n : Nat} (h : src.length = n) : copied n src = src :=
  List.take_left' h

theorem copied_of_lt (h : src.length < 16) :
    copied 16 src = src ++ 0 :: List.replicate (15 - src.length) 0 := by
  have hzeros : min (16 - src.length) 16 = (15 - src.length) + 1 := by omega
  rw [copied, zeros, List.take_append, List.take_of_length_le (by omega), List.take_replicate, hzeros,
    List.replicate_succ]

/-- The last block, as it is padded. -/
theorem set_copied (h : src.length < 16) :
    (copied 16 src).set src.length 0x80 = Lib.padded src := by
  rw [copied_of_lt h, List.set_append_right _ _ (Nat.le_refl _), Nat.sub_self]
  rfl

section Loop

variable {f : Bytes → Bytes} (hf : ∀ b, b.length = 16 → (f b).length = 16)

include hf

/-- The CBC loop over some blocks of the message. -/
theorem cbc_loop (message : Bytes) {l : List Nat}
    (hl : ∀ i ∈ l, (slice message (i * 16) 16).length = 16) {x : Bytes} (hx : x.length = 16) :
    (l.foldl (fun x i => f (xorBytes x (slice message (i * 16) 16))) x).length = 16 ∧
      ofBytes (l.foldl (fun x i => f (xorBytes x (slice message (i * 16) 16))) x) =
        cbcFrom (onBlocks f) (ofBytes x) (l.map fun i => ofBytes (slice message (i * 16) 16)) := by
  induction l generalizing x with
  | nil => exact ⟨hx, rfl⟩
  | cons i l ih =>
    have hblock := hl i List.mem_cons_self
    have hxor : (xorBytes x (slice message (i * 16) 16)).length = 16 :=
      (length_xorBytes _ _).trans hx
    obtain ⟨hlen, hcbc⟩ := ih (fun i' hi' => hl i' (List.mem_cons_of_mem i hi')) (hf _ hxor)
    refine ⟨hlen, hcbc.trans ?_⟩
    rw [List.map_cons]
    show cbcFrom (onBlocks f) _ _ = cbcFrom (onBlocks f) (onBlocks f _) _
    rw [← ofBytes_xorBytes (hx.trans hblock.symm), onBlocks, toBytes_ofBytes hxor]

end Loop

/-- The number of blocks in front of the last one. -/
def blocksBefore (message : Bytes) : Nat :=
  (if (message.length + 15) / 16 = 0 then 1 else (message.length + 15) / 16) - 1

/-- The last block as `computeAESCMAC` prepares it. -/
def preparedLast (message k1 k2 : Bytes) : Bytes :=
  let last := copied 16 (message.drop (blocksBefore message * 16))
  if 0 < message.length ∧ message.length % 16 = 0 then xorBytes last k1
  else xorBytes (last.set (message.length % 16) 0x80) k2

theorem blocksBefore_spec (message : Bytes) : message.length ≤ 16 * (blocksBefore message + 1) ∧
    (blocksBefore message = 0 ∨ 16 * blocksBefore message < message.length) := by
  unfold blocksBefore
  split <;> omega

theorem preparedLast_spec (message : Bytes) {k1 k2 : Bytes} (hk1 : k1.length = 16)
    (hk2 : k2.length = 16) :
    (preparedLast message k1 k2).length = 16 ∧ ofBytes (preparedLast message k1 k2) =
      maskedLast (ofBytes k1) (ofBytes k2) (message.drop (blocksBefore message * 16)) := by
  obtain ⟨hle, hlt⟩ := blocksBefore_spec message
  have hrest : (message.drop (blocksBefore message * 16)).length =
      message.length - blocksBefore message * 16 := List.length_drop
  unfold preparedLast
  dsimp only
  split
  · next hfull =>
    have hlen : (message.drop (blocksBefore message * 16)).length = 16 := by omega
    rw [copied_of_length hlen]
    refine ⟨(length_xorBytes _ _).trans hlen, ?_⟩
    rw [ofBytes_xorBytes (hlen.trans hk1.symm), maskedLast, if_pos hlen]
  · next hpart =>
    have hlen : (message.drop (blocksBefore message * 16)).length < 16 := by omega
    have hmod : message.length % 16 = (message.drop (blocksBefore message * 16)).length := by omega
    have hpad := length_padded hlen
    rw [hmod, set_copied hlen]
    refine ⟨(length_xorBytes _ _).trans hpad, ?_⟩
    rw [ofBytes_xorBytes (hpad.trans hk2.symm), maskedLast, if_neg (by omega)]

/-- The function on blocks is that of the bytes on sixteen of them. -/
theorem ofBytes_apply (f : Bytes → Bytes) {b : Bytes} (hb : b.length = 16) :
    ofBytes (f b) = onBlocks f (ofBytes b) := by
  rw [onBlocks, toBytes_ofBytes hb]

theorem computeAESCMAC_eq (aes : BlockCipher) (message key : Bytes)
    (hf : ∀ b, b.length = 16 → (aes (copied 16 key) b).length = 16) :
    computeAESCMAC aes message key = toBytes (cmac (onBlocks (aes (copied 16 key))) message) := by
  obtain ⟨f, hfeq⟩ : ∃ f, aes (copied 16 key) = f := ⟨_, rfl⟩
  rw [hfeq] at hf ⊢
  have hzeros : (zeros 16).length = 16 := List.length_replicate
  have hl : (f (zeros 16)).length = 16 := hf _ hzeros
  have hk1 : (cmacDouble (f (zeros 16))).length = 16 := (length_cmacDouble _).trans hl
  have hk2 : (cmacDouble (cmacDouble (f (zeros 16)))).length = 16 := (length_cmacDouble _).trans hk1
  have hsub1 : ofBytes (cmacDouble (f (zeros 16))) = subkey1 (onBlocks f) := by
    rw [ofBytes_cmacDouble hl, ofBytes_apply f hzeros]
    rfl
  have hsub2 : ofBytes (cmacDouble (cmacDouble (f (zeros 16)))) = subkey2 (onBlocks f) := by
    rw [ofBytes_cmacDouble hk1, hsub1]
    rfl
  obtain ⟨hlast, hmasked⟩ := preparedLast_spec message hk1 hk2
  obtain ⟨hle, hlt⟩ := blocksBefore_spec message
  have hblocks : ∀ i ∈ List.range (blocksBefore message),
      (slice message (i * 16) 16).length = 16 := by
    intro i hi
    have hi := List.mem_range.mp hi
    rw [slice, List.length_take, List.length_drop]
    omega
  obtain ⟨hx, hcbc⟩ := cbc_loop hf message hblocks hzeros
  have hcode : computeAESCMAC aes message key = f (xorBytes
      ((List.range (blocksBefore message)).foldl
        (fun x i => f (xorBytes x (slice message (i * 16) 16))) (zeros 16))
      (preparedLast message (cmacDouble (f (zeros 16))) (cmacDouble (cmacDouble (f (zeros 16)))))) := by
    rw [← hfeq]
    rfl
  generalize (List.range (blocksBefore message)).foldl
    (fun x i => f (xorBytes x (slice message (i * 16) 16))) (zeros 16) = x at hx hcbc hcode
  have hxor : (xorBytes x (preparedLast message (cmacDouble (f (zeros 16)))
      (cmacDouble (cmacDouble (f (zeros 16)))))).length = 16 := (length_xorBytes _ _).trans hx
  rw [hcode, ← toBytes_ofBytes (hf _ hxor), ofBytes_apply f hxor,
    ofBytes_xorBytes (hx.trans hlast.symm), hmasked, hcbc, hsub1, hsub2, cmac,
    maskedBlocks_eq _ _ hle hlt, cbcFrom, cbcFrom, List.foldl_append]
  rfl

/-- A key, cut or filled with zeros to sixteen bytes. -/
def sixteenBytes (key : Bytes) : Bytes := key.take 16 ++ zeros (16 - key.length)

theorem copied_eq_sixteenBytes (key : Bytes) : copied 16 key = sixteenBytes key := by
  rw [copied, sixteenBytes, List.take_append, zeros, List.take_replicate, zeros]
  congr 2
  omega

theorem computeAESCMAC_onBytes (E : Bytes → Block → Block) (message key : Bytes) :
    computeAESCMAC (fun key => onBytes (E key)) message key =
      toBytes (cmac (E (copied 16 key)) message) := by
  rw [computeAESCMAC_eq (fun key => onBytes (E key)) message key fun b _ =>
    length_onBytes (E (copied 16 key)) b, onBlocks_onBytes]

/-- **AES-CMAC.** For every function on blocks, under the key cut or filled with
zeros to sixteen bytes, `computeAESCMAC` is the MAC of RFC 4493. -/
theorem computeAESCMAC_rfc4493 (E : Bytes → Block → Block) (message key : Bytes) :
    computeAESCMAC (fun key => onBytes (E key)) message key =
      toBytes (cmac (E (sixteenBytes key)) message) := by
  rw [computeAESCMAC_onBytes, copied_eq_sixteenBytes]

/-! ## Signing and verifying -/

/-- A message with the bytes 48 to 63 zeroed. -/
def signatureZeroed (m : Bytes) : Bytes := m.mapIdx fun i b => if 48 ≤ i ∧ i < 64 then 0 else b

/-- The MAC of a message: AES-CMAC from dialect 3.0 on, and half of HMAC-SHA256 before. -/
def mac (P : Platform) (E : Bytes → Block → Block) (m key : Bytes) (dialect : SMBDialect) : Bytes :=
  if dialect ≥ smb3_0 then toBytes (cmac (E (sixteenBytes key)) m)
  else (P.hmacSHA256 (sixteenBytes key) m).take 16

/-- The messages differ at most in the bytes 48 to 63. -/
structure SameButSignature (m m' : Bytes) : Prop where
  length_eq : m'.length = m.length
  getElem_eq : ∀ i, i < 48 ∨ 64 ≤ i → m'[i]? = m[i]?

section Field

variable {m m' sig : Bytes}

theorem SameButSignature.take_eq (h : SameButSignature m m') : m'.take 48 = m.take 48 := by
  apply List.ext_getElem?
  intro i
  rw [List.getElem?_take, List.getElem?_take]
  split
  · next hi => exact h.getElem_eq i (.inl hi)
  · rfl

theorem SameButSignature.drop_eq (h : SameButSignature m m') : m'.drop 64 = m.drop 64 := by
  apply List.ext_getElem?
  intro i
  rw [List.getElem?_drop, List.getElem?_drop]
  exact h.getElem_eq _ (.inr (by omega))

section

variable (hm : 64 ≤ m.length)

include hm

/-- Where a message with another signature has its bytes from. -/
theorem getElem?_field (hsig : sig.length = 16) (i : Nat) :
    (m.take 48 ++ sig ++ m.drop 64)[i]? =
      if i < 48 then m[i]? else if i < 64 then sig[i - 48]? else m[i]? := by
  have htake : (m.take 48).length = 48 := by
    rw [List.length_take]
    omega
  rw [List.append_assoc, List.getElem?_append, htake, List.getElem?_append, hsig]
  split
  · next hi => rw [List.getElem?_take, if_pos hi]
  · next hi =>
    by_cases hfield : i < 64
    · rw [if_pos (by omega), if_pos hfield]
    · rw [if_neg (by omega), if_neg hfield, List.getElem?_drop]
      congr 1
      omega

theorem sameButSignature_field (hsig : sig.length = 16) :
    SameButSignature m (m.take 48 ++ sig ++ m.drop 64) := by
  constructor
  · rw [List.length_append, List.length_append, List.length_take, List.length_drop]
    omega
  · intro i hi
    rw [getElem?_field hm hsig]
    rcases hi with hi | hi
    · rw [if_pos hi]
    · rw [if_neg (by omega), if_neg (by omega)]

theorem slice_field (hsig : sig.length = 16) :
    slice (m.take 48 ++ sig ++ m.drop 64) 48 16 = sig := by
  have htake : (m.take 48).length = 48 := by
    rw [List.length_take]
    omega
  rw [slice, List.append_assoc, List.drop_left' htake, List.take_left' hsig]

theorem signatureZeroed_eq : signatureZeroed m = m.take 48 ++ zeros 16 ++ m.drop 64 := by
  have hzeros : (zeros 16).length = 16 := List.length_replicate
  apply List.ext_getElem?
  intro i
  rw [getElem?_field hm hzeros, signatureZeroed, List.getElem?_mapIdx]
  cases hi : m[i]? with
  | none =>
    have hlen := List.getElem?_eq_none_iff.mp hi
    rw [if_neg (by omega), if_neg (by omega)]
    rfl
  | some b =>
    rw [Option.map_some]
    by_cases hfield : 48 ≤ i ∧ i < 64
    · rw [if_pos hfield, if_neg (by omega), if_pos hfield.2, zeros, List.getElem?_replicate,
        if_pos (by omega)]
    · rw [if_neg hfield]
      split
      · rfl
      · rw [if_neg (by omega)]

theorem signatureZeroed_congr (h : SameButSignature m m') :
    signatureZeroed m' = signatureZeroed m := by
  rw [signatureZeroed_eq hm, signatureZeroed_eq (by rw [h.length_eq]; exact hm), h.take_eq, h.drop_eq]

theorem applySignature_eq (hsig : sig.length = 16) :
    applySignature m sig = m.take 48 ++ sig ++ m.drop 64 := by
  have hlong : smb2HeaderSize ≤ m.length ∧ signatureLength ≤ sig.length := ⟨hm, hsig.ge⟩
  rw [applySignature, if_pos hlong]
  change m.take 48 ++ sig.take 16 ++ m.drop 64 = _
  rw [List.take_of_length_le hsig.le]

end

end Field

section Sign

variable {P : Platform} {E : Bytes → Block → Block} {m m' key : Bytes} {dialect : SMBDialect}

theorem length_mac (hP : ∀ key m, (P.hmacSHA256 key m).length = 32) :
    (mac P E m key dialect).length = 16 := by
  rw [mac]
  split
  · exact length_toBytes _
  · rw [List.length_take, hP]
    rfl

variable (hkey : key ≠ [])

include hkey

/-- The message is one that is signed. -/
theorem not_unsignable (hm : 64 ≤ m.length) : ¬ (key = [] ∨ m.length < smb2HeaderSize) := by
  rintro (hnil | hshort)
  · exact hkey hnil
  · exact Nat.not_lt.mpr hm hshort

/-- `SignMessage` is the MAC of the message with the field zeroed. -/
theorem signMessage_eq_mac (hm : 64 ≤ m.length) :
    signMessage P (fun key => onBytes (E key)) m key dialect =
      some (mac P E (signatureZeroed m) key dialect) := by
  rw [signMessage, if_neg (not_unsignable hkey hm), signatureZeroed_eq hm, mac,
    ← copied_eq_sixteenBytes, ← computeAESCMAC_onBytes]
  rfl

/-- `VerifySignature` compares the field with that MAC. -/
theorem verifySignature_iff (hm : 64 ≤ m.length) :
    verifySignature P (fun key => onBytes (E key)) m key dialect = true ↔
      slice m 48 16 = mac P E (signatureZeroed m) key dialect := by
  rw [verifySignature, if_neg (not_unsignable hkey hm), signMessage_eq_mac hkey hm]
  exact decide_eq_true_iff

end Sign

/-- **Signatures.** With an HMAC of 32 bytes and any function on blocks in the
place of AES, a key that is not empty and messages with room for a header: the
signature does not depend on the signature field, applying it writes only that
field, and the result is accepted; a message is accepted exactly when the field
holds the MAC of the message with the field zeroed. -/
theorem signatures_verify {P : Platform} (hP : ∀ key m, (P.hmacSHA256 key m).length = 32)
    (E : Bytes → Block → Block) (dialect : SMBDialect) {key : Bytes} (hkey : key ≠ []) :
    (∀ m m' : Bytes, 64 ≤ m.length → SameButSignature m m' →
      signMessage P (fun key => onBytes (E key)) m' key dialect =
        signMessage P (fun key => onBytes (E key)) m key dialect) ∧
    (∀ m : Bytes, 64 ≤ m.length →
      ∃ sig, signMessage P (fun key => onBytes (E key)) m key dialect = some sig ∧
        SameButSignature m (applySignature m sig) ∧
        verifySignature P (fun key => onBytes (E key)) (applySignature m sig) key dialect = true) ∧
    (∀ x : Bytes, 64 ≤ x.length →
      (verifySignature P (fun key => onBytes (E key)) x key dialect = true ↔
        slice x 48 16 = mac P E (signatureZeroed x) key dialect)) := by
  refine ⟨?_, ?_, fun x hx => verifySignature_iff hkey hx⟩
  · intro m m' hm hsame
    have hm' : 64 ≤ m'.length := by rw [hsame.length_eq]; exact hm
    rw [signMessage_eq_mac hkey hm, signMessage_eq_mac hkey hm', signatureZeroed_congr hm hsame]
  · intro m hm
    have hsig : (mac P E (signatureZeroed m) key dialect).length = 16 := length_mac hP
    have hsame := sameButSignature_field hm hsig
    rw [← applySignature_eq hm hsig] at hsame
    refine ⟨_, signMessage_eq_mac hkey hm, hsame, ?_⟩
    -- the MAC stands in the field, and zeroing the field again gives the same text
    rw [verifySignature_iff hkey (by rw [hsame.length_eq]; exact hm), signatureZeroed_congr hm hsame,
      applySignature_eq hm hsig]
    exact slice_field hm hsig

theorem signatures_verify_sample :
    ∃ sig, signMessage { samplePlatform with hmacSHA256 := fun _ m => copied 32 m }
        (fun key => onBytes fun x => x + ofBytes key) (List.replicate 70 7) [1, 2, 3] smb3_1_1 =
          some sig ∧
      verifySignature { samplePlatform with hmacSHA256 := fun _ m => copied 32 m }
        (fun key => onBytes fun x => x + ofBytes key)
        (applySignature (List.replicate 70 7) sig) [1, 2, 3] smb3_1_1 = true := by
  have hhmac : ∀ m : Bytes, (copied 32 m).length = 32 := by
    intro m
    rw [copied, List.length_take, List.length_append, zeros, List.length_replicate]
    omega
  obtain ⟨-, happly, -⟩ := signatures_verify
    (P := { samplePlatform with hmacSHA256 := fun _ m => copied 32 m }) (fun _ m => hhmac m)
    (fun key x => x + ofBytes key) smb3_1_1 (List.cons_ne_nil 1 [2, 3])
  obtain ⟨sig, hsign, -, hverify⟩ := happly (List.replicate 70 7) (by decide)
  exact ⟨sig, hsign, hverify⟩

end Smbfs
