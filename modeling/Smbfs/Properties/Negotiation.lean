import Smbfs.System.Connection
import Smbfs.System.Samples

/-!
The dialect that `selectDialect` chooses, and the dialect and the signing flag
of a connection against the NEGOTIATE responses its client got.

* `selectDialect_optimal`: the greatest dialect that both sides allow, whatever
  the order of the client's list;
* `negotiate_agrees_iff`: they agree over a run exactly if every NEGOTIATE with
  an empty payload, as an SMB1 upgrade has it, finds them recorded already.
-/

namespace Smbfs

open Smbfs.Lib

variable {B : Backend} {P : Platform} {k : ConnId} {msg : SMB2Message} {o : Oracle} {s : Server B}

/-! ## Selection -/

/-- The first match of an ordered list is related to every other match. -/
theorem rel_of_find?_eq_some {α : Type} {R : α → α → Prop} {p : α → Bool} {l : List α} {a b : α}
    (hl : l.Pairwise R) (ha : l.find? p = some a) (hb : b ∈ l) (hpb : p b = true) :
    b = a ∨ R a b := by
  obtain ⟨-, front, back, rfl, hfront⟩ := List.find?_eq_some_iff_append.mp ha
  obtain ⟨-, hback, -⟩ := List.pairwise_append.mp hl
  rcases List.mem_append.mp hb with hb | hb
  · have hnot := hfront b hb
    simp [hpb] at hnot
  · rcases List.mem_cons.mp hb with rfl | hb
    · exact .inl rfl
    · exact .inr ((List.pairwise_cons.mp hback).1 b hb)

/-- The server supports the dialect, its limits allow it, and the client lists it. -/
structure Common (opts : ServerOptions) (clientDialects : List SMBDialect) (d : SMBDialect) : Prop where
  supported : d ∈ supportedDialects
  listed : d ∈ clientDialects
  min_le : opts.minDialect ≤ d
  le_max : d ≤ opts.maxDialect

theorem supportedDialects_descending : supportedDialects.Pairwise fun d d' => d' ≤ d := by decide

/-- The test of the loop over `SupportedDialects`. -/
theorem common_iff {opts : ServerOptions} {clientDialects : List SMBDialect} {d : SMBDialect} :
    Common opts clientDialects d ↔ d ∈ supportedDialects ∧
      (!(d > opts.maxDialect) && !(d < opts.minDialect) && clientDialects.contains d) = true := by
  simp only [Bool.and_eq_true, Bool.not_eq_true', decide_eq_false_iff_not, gt_iff_lt,
    UInt16.not_lt, List.contains_iff_mem]
  constructor
  · rintro ⟨hsupported, hlisted, hmin, hmax⟩
    exact ⟨hsupported, ⟨hmax, hmin⟩, hlisted⟩
  · rintro ⟨hsupported, ⟨hmax, hmin⟩, hlisted⟩
    exact ⟨hsupported, hlisted, hmin, hmax⟩

variable (opts : ServerOptions)

/-- Either there is no common dialect, or the greatest one is selected. -/
theorem selectDialect_cases (clientDialects : List SMBDialect) :
    (selectDialect opts clientDialects = 0 ∧ ∀ d, ¬ Common opts clientDialects d) ∨
    (Common opts clientDialects (selectDialect opts clientDialects) ∧
      ∀ d, Common opts clientDialects d → d ≤ selectDialect opts clientDialects) := by
  unfold selectDialect
  cases hfind : supportedDialects.find? fun d =>
      !(d > opts.maxDialect) && !(d < opts.minDialect) && clientDialects.contains d with
  | none =>
    refine .inl ⟨rfl, fun d hd => ?_⟩
    obtain ⟨hsupported, htest⟩ := common_iff.mp hd
    exact List.find?_eq_none.mp hfind d hsupported htest
  | some selected =>
    have htest := List.find?_some hfind
    refine .inr ⟨common_iff.mpr ⟨List.mem_of_find?_eq_some hfind, htest⟩, fun d hd => ?_⟩
    obtain ⟨hsupported, hd⟩ := common_iff.mp hd
    rcases rel_of_find?_eq_some supportedDialects_descending hfind hsupported hd with rfl | hle
    · exact UInt16.le_refl _
    · exact hle

theorem zero_not_supported : (0 : SMBDialect) ∉ supportedDialects := by decide

theorem selectDialect_eq_zero_iff (clientDialects : List SMBDialect) :
    selectDialect opts clientDialects = 0 ↔ ∀ d, ¬ Common opts clientDialects d := by
  rcases selectDialect_cases opts clientDialects with ⟨hzero, hnone⟩ | ⟨hcommon, -⟩
  · exact ⟨fun _ => hnone, fun _ => hzero⟩
  · constructor
    · intro hzero
      rw [hzero] at hcommon
      exact absurd hcommon.supported zero_not_supported
    · intro hnone
      exact absurd hcommon (hnone _)

theorem selectDialect_congr {clientDialects clientDialects' : List SMBDialect}
    (h : ∀ d, d ∈ clientDialects' ↔ d ∈ clientDialects) :
    selectDialect opts clientDialects' = selectDialect opts clientDialects := by
  have hcontains : ∀ d, clientDialects'.contains d = clientDialects.contains d := by
    intro d
    rw [Bool.eq_iff_iff, List.contains_iff_mem, List.contains_iff_mem, h]
  simp only [selectDialect, hcontains]

/-- **Dialect selection is optimal.** If there is a common dialect, the greatest
one is selected, and zero is selected exactly if there is none; the order and the
repetitions of the client's list do not matter. -/
theorem selectDialect_optimal (opts : ServerOptions) (clientDialects : List SMBDialect) :
    ((∃ d, Common opts clientDialects d) →
      Common opts clientDialects (selectDialect opts clientDialects) ∧
      ∀ d, Common opts clientDialects d → d ≤ selectDialect opts clientDialects) ∧
    (selectDialect opts clientDialects = 0 ↔ ∀ d, ¬ Common opts clientDialects d) ∧
    (∀ clientDialects' : List SMBDialect, (∀ d, d ∈ clientDialects' ↔ d ∈ clientDialects) →
      selectDialect opts clientDialects' = selectDialect opts clientDialects) := by
  refine ⟨?_, selectDialect_eq_zero_iff opts clientDialects, fun _ => selectDialect_congr opts⟩
  rintro ⟨d, hd⟩
  rcases selectDialect_cases opts clientDialects with ⟨-, hnone⟩ | hgreatest
  · exact absurd hd (hnone d)
  · exact hgreatest

theorem selectDialect_optimal_sample :
    selectDialect { sampleOptions with minDialect := smb2_1, maxDialect := smb3_0_2 }
        [smb2_0_2, 0x02FF, smb3_0, smb3_1_1, smb2_1, smb3_0] = smb3_0 ∧
      selectDialect { sampleOptions with minDialect := smb2_1, maxDialect := smb3_0_2 }
          [smb3_1_1, smb3_0, smb2_1, 0x02FF, smb2_0_2] =
        selectDialect { sampleOptions with minDialect := smb2_1, maxDialect := smb3_0_2 }
          [smb2_0_2, 0x02FF, smb3_0, smb3_1_1, smb2_1, smb3_0] := by
  obtain ⟨hgreatest, -, hcongr⟩ := selectDialect_optimal
    { sampleOptions with minDialect := smb2_1, maxDialect := smb3_0_2 }
    [smb2_0_2, 0x02FF, smb3_0, smb3_1_1, smb2_1, smb3_0]
  have hcommon : Common { sampleOptions with minDialect := smb2_1, maxDialect := smb3_0_2 }
      [smb2_0_2, 0x02FF, smb3_0, smb3_1_1, smb2_1, smb3_0] smb3_0 := by
    constructor <;> decide
  refine ⟨?_, hcongr _ fun d => ?_⟩
  · obtain ⟨-, hle⟩ := hgreatest ⟨smb3_0, hcommon⟩
    exact UInt16.le_antisymm (by decide) (hle smb3_0 hcommon)
  · have hsub : [smb3_1_1, smb3_0, smb2_1, 0x02FF, smb2_0_2] ⊆
        [smb2_0_2, 0x02FF, smb3_0, smb3_1_1, smb2_1, smb3_0] := by decide
    have hsub' : [smb2_0_2, 0x02FF, smb3_0, smb3_1_1, smb2_1, smb3_0] ⊆
        [smb3_1_1, smb3_0, smb2_1, 0x02FF, smb2_0_2] := by decide
    exact ⟨fun hd => hsub hd, fun hd => hsub' hd⟩

/-! ## Agreement -/

/-- The DialectRevision field of a NEGOTIATE response. -/
def dialectRevision (payload : Bytes) : SMBDialect := getUint16 (payload.drop 4)

/-- The connection records what the response says, within the server's limits. -/
structure Agrees (s : Server B) (k : ConnId) (payload : Bytes) : Prop where
  dialect : (s.conns k).dialect = dialectRevision payload
  min_le : s.options.minDialect ≤ (s.conns k).dialect
  le_max : (s.conns k).dialect ≤ s.options.maxDialect
  signing : s.options.signingRequired = true → (s.conns k).signingRequired = true

/-- After a NEGOTIATE that succeeds, the connection agrees with the response. -/
def NegotiateAgrees (P : Platform) (sys : System B) : Event → Prop
  | .message k msg o => sys.crashed = false → msg.cmd = .negotiate → ∀ r,
      (processMessage P k msg o sys.server).1 = .response r →
      r.header.status = NTStatus.success.code →
      Agrees (processMessage P k msg o sys.server).2 k r.payload
  | _ => True

/-- A NEGOTIATE without payload comes over a connection that has the largest
dialect of the server already, and the signing flag if the server asks for it. -/
def UpgradeRecorded (sys : System B) : Event → Prop
  | .message k msg _ => sys.crashed = false → msg.cmd = .negotiate → msg.payload = [] →
      (sys.server.conns k).dialect = sys.server.options.maxDialect ∧
      sys.server.options.minDialect ≤ sys.server.options.maxDialect ∧
      (sys.server.options.signingRequired = true → (sys.server.conns k).signingRequired = true)
  | _ => True

/-! ## The response -/

theorem dialectRevision_buildNegotiateResponse (now : GoTime) (dialect : SMBDialect) :
    dialectRevision (buildNegotiateResponse opts now dialect) = dialect := by
  simp only [dialectRevision, buildNegotiateResponse, List.append_assoc]
  exact getUint16_putUint16 _ _

/-! ## One NEGOTIATE -/

theorem agrees_hashResponse (r : SMB2Response) (payload : Bytes) :
    Agrees (hashResponse P k r s) k payload ↔ Agrees s k payload := by
  obtain ⟨hash, hr⟩ := hashResponse_eq P k r s
  rw [hr]
  constructor
  · rintro ⟨h1, h2, h3, h4⟩
    simp only [Server.setConn, Function.update_self] at h1 h2 h3 h4
    exact ⟨h1, h2, h3, h4⟩
  · rintro ⟨h1, h2, h3, h4⟩
    constructor <;> simp only [Server.setConn, Function.update_self] <;> assumption

/-- The answer to an SMB1 upgrade names the largest dialect. -/
theorem agrees_upgrade (now : GoTime) :
    Agrees s k (buildNegotiateResponse s.options now s.options.maxDialect) ↔
      (s.conns k).dialect = s.options.maxDialect ∧ s.options.minDialect ≤ s.options.maxDialect ∧
      (s.options.signingRequired = true → (s.conns k).signingRequired = true) := by
  constructor
  · rintro ⟨h1, h2, h3, h4⟩
    rw [dialectRevision_buildNegotiateResponse] at h1
    rw [h1] at h2
    exact ⟨h1, h2, h4⟩
  · rintro ⟨h1, h2, h4⟩
    refine ⟨?_, ?_, ?_, h4⟩
    · rw [dialectRevision_buildNegotiateResponse, h1]
    · rw [h1]; exact h2
    · rw [h1]; exact UInt16.le_refl _

/-- **One NEGOTIATE.** -/
theorem negotiateAgrees_iff (sys : System B) (e : Event) :
    NegotiateAgrees P sys e ↔ UpgradeRecorded sys e := by
  cases e with
  | message k msg o =>
    simp only [NegotiateAgrees, UpgradeRecorded]
    refine imp_congr_right fun _ => imp_congr_right fun hcmd => ?_
    obtain ⟨hash, hreq⟩ := hashRequest_eq P k msg sys.server
    have hconn : ((sys.server.setConn k { sys.server.conns k with preauthHash := hash }).conns k) =
        { sys.server.conns k with preauthHash := hash } := Function.update_self ..
    rw [processMessage, hreq, handleMessage_negotiate hcmd]
    by_cases hp : msg.payload = []
    · have hup := agrees_upgrade (s := sys.server.setConn k
        { sys.server.conns k with preauthHash := hash }) (k := k) o.now
      rw [hconn] at hup
      simp only [handleNegotiate_empty hp, respond, hp, forall_const, Outcome.response.injEq,
        forall_eq', buildResponse_status, Reply.ok, buildResponse_payload, agrees_hashResponse]
      exact hup
    · rcases handleNegotiate_cases (k := k) (o := o) (s := sys.server.setConn k
        { sys.server.conns k with preauthHash := hash }) hp with
        ⟨st, hst, hneg⟩ | ⟨d, signing, hmin, hmax, hs, hneg⟩
      · have hcode : st.code ≠ NTStatus.success.code := fun hc => hst (NTStatus.code_eq_zero.mp hc)
        simp [hneg, respond, hp, buildResponse_status, hcode]
      · simp only [hneg, respond, hp, false_imp_iff, iff_true, Outcome.response.injEq, forall_eq',
          buildResponse_status, Reply.ok, buildResponse_payload, agrees_hashResponse, forall_const]
        constructor
        · rw [dialectRevision_buildNegotiateResponse]
          simp [Server.setConn]
        · simpa [Server.setConn] using hmin
        · simpa [Server.setConn] using hmax
        · simpa [Server.setConn] using hs
  | _ => rfl

/-- **Negotiation.** Over a run, every connection agrees with its successful
NEGOTIATE responses exactly if every NEGOTIATE without payload finds the
largest dialect, and the signing flag the server asks for, recorded already. -/
theorem negotiate_agrees_iff (options : ServerOptions) (rand : Bytes) (disks : FsRef → B.Disk)
    (es : List Event) :
    Along (System.step P) (NegotiateAgrees P) (.initial options rand disks) es ↔
      Along (System.step P) UpgradeRecorded (.initial options rand disks) es :=
  along_congr negotiateAgrees_iff

/-- An SMB1 upgrade on a new connection is told SMB 3.1.1, and nothing is recorded. -/
theorem smb1_upgrade_unrecorded :
    ¬ Along (System.step samplePlatform) (NegotiateAgrees samplePlatform) sampleSystem
      [.connect 0 [], sent handleSMB1Negotiate] := by
  intro h
  have hagrees := h.2.1 rfl rfl _ rfl rfl
  have hdialect := hagrees.dialect
  revert hdialect
  decide +kernel

end Smbfs
