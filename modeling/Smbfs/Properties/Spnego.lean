import Smbfs.Auth.Ntlm
import Smbfs.Lib.Der

/-!
The SPNEGO token around an NTLM message. `decodeNegTokenResp` reads a
`NegTokenResp` of RFC 4178 by the rules of DER, with no byte left over at any
level.

* `decodeTlv_asn1Wrap`: `asn1Wrap` writes one element, in all its three length
  forms;
* `Locates`: a search for the NTLM signature finds the message and nothing in
  front of it. Each layer keeps this, because a length that happens to spell
  letters of the signature is followed by a tag that does not go on with it;
* `wrapInSPNEGO_token`: the token is read back by both ways.
-/

namespace Smbfs

open Smbfs.Lib

/-! ## The token as DER -/

/-- A `NegTokenResp` with its first three fields and without `mechListMIC`. -/
structure NegTokenResp where
  negState : UInt8
  supportedMech : List Nat
  responseToken : Bytes
  deriving DecidableEq, Repr

def decodeNegTokenResp (b : Bytes) : Option NegTokenResp := do
  let fields ← Der.only 0x30 (← Der.only 0xa1 b)
  let (state, rest) ← Der.expect 0xa0 fields
  let (mech, rest) ← Der.expect 0xa1 rest
  let token ← Der.only 0xa2 rest
  let [negState] ← Der.only 0x0a state | none
  let supportedMech ← Der.decodeOid (← Der.only 0x06 mech)
  let responseToken ← Der.only 0x04 token
  return ⟨negState, supportedMech, responseToken⟩

/-- `accept-incomplete`. -/
def acceptIncomplete : UInt8 := 1

/-- `1.3.6.1.4.1.311.2.2.10`. -/
def ntlmMech : List Nat := [1, 3, 6, 1, 4, 1, 311, 2, 2, 10]

variable (tag : UInt8) {data : Bytes}

theorem decodeTlv_asn1Wrap (rest : Bytes) (h : data.length < 65536) :
    Der.decodeTlv (asn1Wrap tag data ++ rest) = some (tag, data, rest) := by
  unfold asn1Wrap
  split
  · exact Der.decodeTlv_short ‹_›
  · split
    · exact Der.decodeTlv_one (by omega) ‹_›
    · exact Der.decodeTlv_two (by omega) h

theorem expect_asn1Wrap (rest : Bytes) (h : data.length < 65536) :
    Der.expect tag (asn1Wrap tag data ++ rest) = some (data, rest) :=
  Der.expect_of_decodeTlv (decodeTlv_asn1Wrap tag rest h)

theorem only_asn1Wrap (h : data.length < 65536) : Der.only tag (asn1Wrap tag data) = some data := by
  have hone := decodeTlv_asn1Wrap tag [] h
  rw [List.append_nil] at hone
  exact Der.only_of_decodeTlv hone

theorem length_le_asn1Wrap (data : Bytes) : data.length ≤ (asn1Wrap tag data).length := by
  unfold asn1Wrap
  split_ifs <;> simp only [List.length_cons] <;> omega

theorem length_lt_of_asn1Wrap {tag : UInt8} {n : Nat}
    (h : (asn1Wrap tag data).length < n) : data.length < n :=
  Nat.lt_of_le_of_lt (length_le_asn1Wrap tag data) h

theorem decodeNegTokenResp_wrapInSPNEGO {m : Bytes} (h : (wrapInSPNEGO m).length < 65536) :
    decodeNegTokenResp (wrapInSPNEGO m) = some ⟨acceptIncomplete, ntlmMech, m⟩ := by
  unfold wrapInSPNEGO at h ⊢
  have hseq := length_lt_of_asn1Wrap h
  have hfields := length_lt_of_asn1Wrap hseq
  have htoken : (asn1Wrap 0xa2 (asn1Wrap 0x04 m)).length < 65536 := by
    simp only [List.length_append] at hfields
    omega
  have hoctets := length_lt_of_asn1Wrap htoken
  have hm := length_lt_of_asn1Wrap hoctets
  rw [decodeNegTokenResp, only_asn1Wrap 0xa1 hseq]
  simp only [Option.bind_eq_bind, Option.bind_some, only_asn1Wrap 0x30 hfields]
  rw [List.append_assoc, expect_asn1Wrap 0xa0 _ (by decide)]
  simp only [Option.bind_some]
  rw [expect_asn1Wrap 0xa1 _ (by decide)]
  simp only [Option.bind_some, only_asn1Wrap 0xa2 hoctets, only_asn1Wrap 0x04 hm]
  rfl

/-! ## The search for the signature -/

/-- The bytes end with `m`, and the signature does not stand at an earlier place. -/
def Locates (b m : Bytes) : Prop :=
  ∃ front, b = front ++ m ∧ ∀ i < front.length, ¬ ntlmSignature <+: b.drop i

namespace Locates

variable {b m : Bytes}

theorem refl (m : Bytes) : Locates m m := ⟨[], rfl, fun _ hi => nomatch hi⟩

theorem cons {x : UInt8} (h : Locates b m) (hx : ¬ ntlmSignature <+: x :: b) :
    Locates (x :: b) m := by
  obtain ⟨front, rfl, hfront⟩ := h
  refine ⟨x :: front, rfl, fun i hi => ?_⟩
  cases i with
  | zero => exact hx
  | succ i => exact hfront i (Nat.lt_of_succ_lt_succ hi)

/-- No signature begins with a byte other than its first. -/
theorem cons_of_ne {x : UInt8} (h : Locates b m) (hx : x ≠ 0x4E) : Locates (x :: b) m :=
  h.cons fun hp => hx (List.cons_prefix_cons.mp hp).1.symm

theorem append {front : Bytes} (h : Locates b m) (hf : 0x4E ∉ front) : Locates (front ++ b) m := by
  induction front with
  | nil => exact h
  | cons x front ih =>
    rw [List.mem_cons, not_or] at hf
    exact (ih hf.2).cons_of_ne (Ne.symm hf.1)

/-- One layer. The length may end with the first letter of the signature, or in its
long form with the first two, but the content does not go on with the next. -/
theorem wrap {tag c : UInt8} (h : Locates b m) (hc : b.head? = some c) (htag : tag ≠ 0x4E)
    (h2 : c ≠ 0x54) (h3 : c ≠ 0x4C) : Locates (asn1Wrap tag b) m := by
  obtain ⟨content, rfl⟩ := List.head?_eq_some_iff.mp hc
  have hlen (x : UInt8) : Locates (x :: c :: content) m :=
    h.cons fun hp => h2 (List.cons_prefix_cons.mp (List.cons_prefix_cons.mp hp).2).1.symm
  have hlen2 (x y : UInt8) : Locates (x :: y :: c :: content) m :=
    (hlen y).cons fun hp => h3 (List.cons_prefix_cons.mp
      (List.cons_prefix_cons.mp (List.cons_prefix_cons.mp hp).2).2).1.symm
  unfold asn1Wrap
  split_ifs
  · exact (hlen _).cons_of_ne htag
  · exact ((hlen _).cons_of_ne (by decide)).cons_of_ne htag
  · exact ((hlen2 _ _).cons_of_ne (by decide)).cons_of_ne htag

/-- The search gives the message, unless only the signature is left of it. -/
theorem extract {w : Window UInt8} (h : Locates w.live m) (hsig : ntlmSignature <+: m)
    (hlong : 8 < m.length) (hw : 10 ≤ w.len) :
    (extractNTLMFromSPNEGO w).map Window.live = some m := by
  obtain ⟨front, hlive, hfront⟩ := h
  have hlen : w.len = front.length + m.length := by
    rw [← w.live_length, hlive, List.length_append]
  have hslice (i : Nat) : slice w.live i 8 = ntlmSignature ↔ ntlmSignature <+: w.live.drop i := by
    rw [List.prefix_iff_eq_take]
    exact eq_comm
  have hfind : (List.range (w.len - 8)).find? (fun i => slice w.live i 8 = ntlmSignature) =
      some front.length := by
    rw [List.find?_range_eq_some]
    refine ⟨?_, ?_, ?_⟩
    · rw [decide_eq_true_iff, hslice, hlive, List.drop_left]
      exact hsig
    · rw [List.mem_range]
      omega
    · intro j hj
      simpa [hslice] using hfront j hj
  rw [extractNTLMFromSPNEGO, if_neg (by omega), hfind]
  simp [Window.dropFront_live, hlive]

end Locates

theorem head?_asn1Wrap (data : Bytes) : (asn1Wrap tag data).head? = some tag := by
  unfold asn1Wrap
  split_ifs <;> rfl

theorem ten_le_length_wrapInSPNEGO (m : Bytes) : 10 ≤ (wrapInSPNEGO m).length := by
  refine Nat.le_trans ?_ (length_le_asn1Wrap _ _)
  refine Nat.le_trans ?_ (length_le_asn1Wrap _ _)
  rw [List.length_append]
  exact Nat.le_trans (by decide) (Nat.le_add_right _ _)

theorem locates_wrapInSPNEGO {m : Bytes} (hsig : ntlmSignature <+: m) :
    Locates (wrapInSPNEGO m) m := by
  have hm : m.head? = some 0x4E := by
    obtain ⟨tail, rfl⟩ := hsig
    rfl
  have hoctets : Locates (asn1Wrap 0x04 m) m :=
    (Locates.refl m).wrap hm (by decide) (by decide) (by decide)
  have htoken : Locates (asn1Wrap 0xa2 (asn1Wrap 0x04 m)) m :=
    hoctets.wrap (head?_asn1Wrap _ _) (by decide) (by decide) (by decide)
  have hfields : Locates (asn1Wrap 0xa0 [0x0a, 0x01, 0x01] ++
      asn1Wrap 0xa1 (asn1Wrap 0x06 [0x2b, 0x06, 0x01, 0x04, 0x01, 0x82, 0x37, 0x02, 0x02, 0x0a]) ++
      asn1Wrap 0xa2 (asn1Wrap 0x04 m)) m := htoken.append (by decide)
  have hseq : Locates (asn1Wrap 0x30 _) m := hfields.wrap rfl (by decide) (by decide) (by decide)
  exact hseq.wrap (head?_asn1Wrap _ _) (by decide) (by decide) (by decide)

/-! ## Both ways back -/

/-- A message in a token below 64 KB is what a DER decoder finds as its response token,
beside `accept-incomplete` and the NTLM mechanism, and what the search of
`extractNTLMFromSPNEGO` finds. -/
theorem wrapInSPNEGO_token (m : Bytes) (hsig : ntlmSignature <+: m) (hlong : 8 < m.length)
    (hlen : (wrapInSPNEGO m).length < 65536) :
    decodeNegTokenResp (wrapInSPNEGO m) = some ⟨acceptIncomplete, ntlmMech, m⟩ ∧
      ∀ w : Window UInt8, w.live = wrapInSPNEGO m →
        (extractNTLMFromSPNEGO w).map Window.live = some m := by
  refine ⟨decodeNegTokenResp_wrapInSPNEGO hlen, fun w hw => ?_⟩
  have hten : 10 ≤ w.len := by
    rw [← w.live_length, hw]
    exact ten_le_length_wrapInSPNEGO m
  exact Locates.extract (hw ▸ locates_wrapInSPNEGO hsig) hsig hlong hten

theorem wrapInSPNEGO_token_short :
    decodeNegTokenResp (wrapInSPNEGO (ntlmSignature ++ [2, 0, 0, 0])) =
      some ⟨acceptIncomplete, ntlmMech, ntlmSignature ++ [2, 0, 0, 0]⟩ :=
  (wrapInSPNEGO_token (ntlmSignature ++ [2, 0, 0, 0]) (List.prefix_append _ _) (by decide)
    (by decide)).1

end Smbfs
