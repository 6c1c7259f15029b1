import Smbfs.Properties.Authentication

/-!
Which security blobs `Authenticate` can parse, when the blob has no spare
capacity.

* `spnego_reads_inside`: the search for the NTLM signature stays inside;
* `extractField_eq_none`: a field of a Type 3 message is read out of range when
  the message ends inside its descriptor, or when offset plus length overflow
  32 bits;
* `authenticate_returns_iff`: the blobs for which `Authenticate` returns;
* `short_type3_panics`: a Type 3 message of 24 bytes.
-/

namespace Smbfs

open Smbfs.Lib NTLMAuthenticator

/-- A slice without spare capacity. -/
def Exact (blob : Window UInt8) : Prop := blob.cells.length = blob.len

theorem exact_ofList (data : Bytes) : Exact (.ofList data) := rfl

variable {blob : Window UInt8}

theorem exact_ntlmBlob (h : Exact blob) : Exact (ntlmBlob blob) := by
  unfold ntlmBlob
  cases hx : extractNTLMFromSPNEGO blob with
  | none => exact h
  | some w =>
    unfold extractNTLMFromSPNEGO at hx
    split at hx
    · cases hx
    · obtain ⟨i, _, rfl⟩ := Option.map_eq_some_iff.mp hx
      have hlen : blob.cells.length = blob.len := h
      simp [Exact, Window.dropFront, hlen]

/-- Every slice that `extractNTLMFromSPNEGO` compares with the signature lies
inside the blob. -/
theorem spnego_reads_inside (blob : Window UInt8) (i : Nat) (h : i < blob.len - 8) :
    (blob.sub i (i + 8)).map Window.live = some (slice blob.live i 8) := by
  rw [Window.sub_live (by omega) (by omega), Nat.add_sub_cancel_left]
  rfl

/-! ## The fields of a Type 3 message -/

theorem uint16At_eq_none (h : Exact blob) {i : Nat} :
    uint16At blob i = none ↔ blob.len < i + 2 := by
  have hlen : blob.cells.length = blob.len := h
  rw [uint16At, Option.map_eq_none_iff, Window.sub_eq_none, hlen]
  omega

theorem uint32At_eq_none (h : Exact blob) {i : Nat} :
    uint32At blob i = none ↔ blob.len < i + 4 := by
  have hlen : blob.cells.length = blob.len := h
  rw [uint32At, Option.map_eq_none_iff, Window.sub_eq_none, hlen]
  omega

/-- The field with its length at `lenAt` and its offset at `offAt` ends inside
the blob, but beyond what 32 bits can count. -/
def Wraps (blob : Window UInt8) (lenAt offAt : Nat) : Prop :=
  ∃ len off, uint16At blob lenAt = some len ∧ uint32At blob offAt = some off ∧
    UInt32.size ≤ off.toNat + len.toNat ∧ off.toNat + len.toNat ≤ blob.len

/-- The 32-bit end of a field lies before its start exactly if it overflows. -/
theorem fieldEnd_toNat (off : UInt32) (len : UInt16) :
    (off + len.toUInt32).toNat =
      if off.toNat + len.toNat < UInt32.size then off.toNat + len.toNat
      else off.toNat + len.toNat - UInt32.size := by
  have hoff := off.toNat_lt
  have hlen := len.toNat_lt
  rw [UInt32.toNat_add, UInt16.toNat_toUInt32]
  simp only [UInt32.size]
  split <;> omega

theorem extractField_eq_none (h : Exact blob) {minLen lenAt offAt : Nat} (hat : lenAt + 4 = offAt)
    (hmin : minLen ≤ offAt + 4) :
    extractField blob minLen lenAt offAt = none ↔
      (minLen ≤ blob.len ∧ blob.len < offAt + 4) ∨ Wraps blob lenAt offAt := by
  have hcells : blob.cells.length = blob.len := h
  unfold extractField Wraps
  by_cases hshort : blob.len < minLen
  · -- too short: nil, and the descriptor is not there to be read
    have hoff : uint32At blob offAt = none := (uint32At_eq_none h).mpr (by omega)
    simp only [hshort, if_true, hoff, reduceCtorEq, false_and, and_false, exists_false, or_false,
      false_iff]
    omega
  · simp only [hshort, if_false]
    cases hl : uint16At blob lenAt with
    | none =>
      have := (uint16At_eq_none h).mp hl
      simp only [Option.bind_eq_bind, Option.bind_none, true_iff]
      omega
    | some len =>
      cases ho : uint32At blob offAt with
      | none =>
        have := (uint32At_eq_none h).mp ho
        simp only [Option.bind_eq_bind, Option.bind_some, Option.bind_none, true_iff]
        omega
      | some off =>
        have hin : ¬ blob.len < offAt + 4 := by
          intro hlt
          rw [(uint32At_eq_none h).mpr hlt] at ho
          cases ho
        simp only [Option.bind_eq_bind, Option.bind_some, hin, and_false, false_or,
          Option.some.injEq, exists_and_left, exists_eq_left']
        have hlen := len.toNat_lt
        have hoff := off.toNat_lt
        by_cases hout : len = 0 ∨ off.toNat + len.toNat > blob.len
        · rw [if_pos hout]
          simp only [reduceCtorEq, false_iff]
          rcases hout with rfl | hout
          · simp only [UInt16.toNat_zero, UInt32.size]
            omega
          · omega
        · rw [if_neg hout]
          simp only [Option.bind_eq_none_iff, reduceCtorEq, imp_false]
          rw [← Option.eq_none_iff_forall_ne_some, Window.sub_eq_none, fieldEnd_toNat, hcells]
          simp only [UInt32.size]
          split <;> omega

/-! ## `Authenticate` -/

/-- The NTLM messages whose fields can be read: not Type 3, or neither 24 to 27
nor 32 to 35 bytes long and without a field that wraps around. -/
def Parsable (blob : Window UInt8) : Prop :=
  messageType blob = some 3 →
    ¬ (24 ≤ blob.len ∧ blob.len < 28) ∧ ¬ (32 ≤ blob.len ∧ blob.len < 36) ∧
    ¬ Wraps blob 36 40 ∧ ¬ Wraps blob 28 32 ∧ ¬ Wraps blob 20 24 ∧ ¬ Wraps blob 52 56

theorem handleAuthenticate_isSome (P : Platform) (a : NTLMAuthenticator) (blob : Window UInt8) :
    (a.handleAuthenticate P blob).isSome ↔
      extractField blob 44 36 40 ≠ none ∧ extractField blob 32 28 32 ≠ none ∧
      extractField blob 24 20 24 ≠ none ∧ extractField blob 60 52 56 ≠ none := by
  simp only [handleAuthenticate, extractUsername, extractDomain, extractNTResponse,
    extractEncryptedSessionKey]
  cases extractField blob 44 36 40 <;> cases extractField blob 32 28 32 <;>
    cases extractField blob 24 20 24 <;> cases extractField blob 60 52 56 <;> simp

theorem handleAuthenticate_returns (h : Exact blob) (P : Platform) (a : NTLMAuthenticator) :
    (a.handleAuthenticate P blob).isSome ↔
      ¬ (24 ≤ blob.len ∧ blob.len < 28) ∧ ¬ (32 ≤ blob.len ∧ blob.len < 36) ∧
      ¬ Wraps blob 36 40 ∧ ¬ Wraps blob 28 32 ∧ ¬ Wraps blob 20 24 ∧ ¬ Wraps blob 52 56 := by
  have huser : ¬ (44 ≤ blob.len ∧ blob.len < 44) := by omega
  have hkey : ¬ (60 ≤ blob.len ∧ blob.len < 60) := by omega
  rw [handleAuthenticate_isSome]
  simp only [ne_eq, extractField_eq_none h, Nat.reduceAdd, Nat.reduceLeDiff, huser, hkey, not_or,
    not_false_eq_true, true_and]
  tauto

/-- **`Authenticate` returns exactly on the parsable messages**, whatever the
state of the authenticator, and the search for the message reads inside the blob. -/
theorem authenticate_returns_iff (P : Platform) (a : NTLMAuthenticator) (now : GoTime)
    (challenge data : Bytes) :
    (∀ i < data.length - 8,
      ((Window.ofList data).sub i (i + 8)).map Window.live = some (slice data i 8)) ∧
    ((a.authenticate P now challenge (.ofList data)).isSome ↔
      Parsable (ntlmBlob (.ofList data))) := by
  refine ⟨?_, ?_⟩
  · intro i hi
    rw [spnego_reads_inside (.ofList data) i hi, Window.ofList_live]
  · have hexact := exact_ntlmBlob (exact_ofList data)
    simp only [authenticate, Parsable]
    cases htype : messageType (ntlmBlob (.ofList data)) with
    | none => simp
    | some t =>
      dsimp only
      by_cases h1 : t = 1
      · subst h1
        simp
      · by_cases h3 : t = 3
        · subst h3
          rw [if_neg h1, if_pos rfl, handleAuthenticate_returns hexact]
          exact ⟨fun h _ => h, fun h => h rfl⟩
        · simp [h1, h3]

/-- A Type 3 message that ends behind the length of its NT response. -/
def shortType3 : Bytes := ntlmSignature ++ putUint32 3 ++ zeros 12

/-- `extractNTResponse` checks for 24 bytes and reads up to byte 28. -/
theorem short_type3_panics :
    shortType3.length = 24 ∧
    sampleAuthenticator.authenticate samplePlatform 0 (zeros 8) (.ofList shortType3) = none := by
  refine ⟨by decide, ?_⟩
  rw [← Option.not_isSome_iff_eq_none]
  decide +kernel

end Smbfs
