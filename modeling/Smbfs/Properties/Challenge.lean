import Smbfs.Auth.Ntlm

/-!
The layout of the NTLM challenge, read with the client's eyes: `designated`
follows a length and an offset, and `walkAvPairs` goes through a list of
attribute pairs to an end mark that ends the list.

* `walkAvPairs_buildTargetInfo`: the pairs of the target info;
* `buildResponseFlags_within`: the response has no flag of its own except
  `NEGOTIATE_NTLM`;
* `buildChallengeMessage_layout`: the message as a whole.
-/

namespace Smbfs

/-! ## The reader -/

/-- The bytes that the field at `i` designates by a length and, four bytes later, an
offset, if they lie in the message. -/
def designated (msg : Bytes) (i : Nat) : Option Bytes :=
  let len := (getUint16 (slice msg i 2)).toNat
  let off := (getUint32 (slice msg (i + 4) 4)).toNat
  if off + len ≤ msg.length then some (slice msg off len) else none

/-- The end of the bytes that the field at `i` designates. -/
def designatedEnd (msg : Bytes) (i : Nat) : Nat :=
  (getUint32 (slice msg (i + 4) 4)).toNat + (getUint16 (slice msg i 2)).toNat

/-- The pairs in front of the end mark, if every value lies in the list and the end mark
is its last pair. -/
def walkAvPairs (b : Bytes) : Option (List (UInt16 × Bytes)) :=
  let avID := getUint16 b
  let len := (getUint16 (b.drop 2)).toNat
  if b.length < 4 + len then none
  else if avID = 0 then if b.length = 4 then some [] else none
  else (walkAvPairs (b.drop (4 + len))).map ((avID, slice b 4 len) :: ·)
termination_by b.length
decreasing_by
  rw [List.length_drop]
  omega

/-- The flags of a challenge. -/
def flagsOf (msg : Bytes) : UInt32 := getUint32 (slice msg 20 4)

/-- The layout of a challenge: the target name, the server challenge, the flags, and the
target info, whose field is zero if there is none. -/
structure ChallengeLayout (a : NTLMAuthenticator) (msg : Bytes) : Prop where
  targetName : designated msg 12 = some (encodeStringToUTF16LE a.targetName)
  challenge : slice msg 24 8 = a.serverChallenge
  flags : flagsOf msg &&&
    ~~~(ntlmFlagNegotiateNTLM ||| ntlmFlagNegotiateTargetInfo ||| a.clientFlags) = 0
  present : slice msg 40 8 ≠ zeros 8 ↔ hasBits (flagsOf msg) ntlmFlagNegotiateTargetInfo = true
  targetInfo : hasBits (flagsOf msg) ntlmFlagNegotiateTargetInfo = true →
    ∃ info timestamp : Bytes, designated msg 40 = some info ∧ designatedEnd msg 40 = msg.length ∧
      timestamp.length = 8 ∧
      walkAvPairs info = some [(2, encodeStringToUTF16LE a.targetName),
        (1, encodeStringToUTF16LE a.targetName), (7, timestamp)]

/-! ## Slices of a message -/

theorem slice_of_append {front mid back : Bytes} {i n : Nat} (hi : front.length = i)
    (hn : mid.length = n) : slice (front ++ (mid ++ back)) i n = mid := by
  subst hi hn
  simp [slice]

theorem slice_append_left {front : Bytes} (back : Bytes) {i n : Nat} (h : i + n ≤ front.length) :
    slice (front ++ back) i n = slice front i n := by
  rw [slice, slice, List.drop_append_of_le_length (by omega),
    List.take_append_of_le_length (by rw [List.length_drop]; omega)]

theorem getUint16_put (v : UInt16) : getUint16 (putUint16 v) = v := by
  simpa using getUint16_putUint16 v []

theorem getUint32_put (v : UInt32) : getUint32 (putUint32 v) = v := by
  simpa using getUint32_putUint32 v []

/-! ## The target info -/

namespace NTLMAuthenticator

theorem walkAvPairs_avPair {avID : UInt16} {value : Bytes} (rest : Bytes) (hid : avID ≠ 0)
    (hlen : value.length < 65536) :
    walkAvPairs (avPair avID value ++ rest) = (walkAvPairs rest).map ((avID, value) :: ·) := by
  have hn : (UInt16.ofNat value.length).toNat = value.length := by
    rw [UInt16.toNat_ofNat']
    omega
  have hid' : getUint16 (avPair avID value ++ rest) = avID := by
    rw [avPair, List.append_assoc, List.append_assoc, getUint16_putUint16]
  have hlen' : (getUint16 ((avPair avID value ++ rest).drop 2)).toNat = value.length := by
    rw [avPair, List.append_assoc, List.append_assoc]
    change (getUint16 (putUint16 (UInt16.ofNat value.length) ++ (value ++ rest))).toNat = _
    rw [getUint16_putUint16, hn]
  have hvalue : slice (avPair avID value ++ rest) 4 value.length = value := by
    rw [avPair, List.append_assoc]
    exact slice_of_append rfl rfl
  have hrest : (avPair avID value ++ rest).drop (4 + value.length) = rest := List.drop_left' (by
    simp only [avPair, List.length_append, putUint16, List.length_cons, List.length_nil])
  rw [walkAvPairs, hid', hlen', hvalue, hrest, if_neg hid, if_neg]
  simp only [avPair, List.length_append, putUint16, List.length_cons, List.length_nil]
  omega

theorem walkAvPairs_end : walkAvPairs (avPair 0 []) = some [] := by
  rw [walkAvPairs]
  rfl

theorem walkAvPairs_buildTargetInfo (a : NTLMAuthenticator) (now : GoTime)
    (hlen : (encodeStringToUTF16LE a.targetName).length < 65536) :
    walkAvPairs (a.buildTargetInfo now) = some [(2, encodeStringToUTF16LE a.targetName),
      (1, encodeStringToUTF16LE a.targetName), (7, putUint64 (timeToFiletime now))] := by
  rw [buildTargetInfo, List.append_assoc, List.append_assoc,
    walkAvPairs_avPair _ (by decide) hlen, walkAvPairs_avPair _ (by decide) hlen,
    walkAvPairs_avPair _ (by decide) (by simp [putUint64, putUint32]), walkAvPairs_end]
  rfl

theorem length_buildTargetInfo (a : NTLMAuthenticator) (now : GoTime) :
    (a.buildTargetInfo now).length = 2 * (encodeStringToUTF16LE a.targetName).length + 24 := by
  simp only [buildTargetInfo, avPair, putUint16, putUint64, putUint32, List.length_append,
    List.length_cons, List.length_nil]
  omega

/-! ## The flags -/

/-- Every bit of the first word is one of the second. -/
def Within (x y : UInt32) : Prop :=
  ∀ i, x.toBitVec.getLsbD i = true → y.toBitVec.getLsbD i = true

namespace Within

variable {x y z : UInt32}

theorem trans (h : Within x y) (h' : Within y z) : Within x z := fun i hx => h' i (h i hx)

theorem or_left (x y : UInt32) : Within x (x ||| y) := fun i h => by simp [h]

theorem or_right (x y : UInt32) : Within y (x ||| y) := fun i h => by simp [h]

theorem or (hx : Within x z) (hy : Within y z) : Within (x ||| y) z := by
  intro i h
  rw [UInt32.toBitVec_or, BitVec.getLsbD_or, Bool.or_eq_true] at h
  exact h.elim (hx i) (hy i)

theorem and_not (h : Within x y) : x &&& ~~~y = 0 := by
  apply UInt32.toBitVec_inj.mp
  apply BitVec.eq_of_getLsbD_eq
  intro i hi
  have hxy := h i
  cases hx : x.toBitVec.getLsbD i <;> simp_all

end Within

/-- A flag of one bit. -/
def IsBit (f : UInt32) (i : Nat) : Prop := f.toBitVec = BitVec.twoPow 32 i

theorem IsBit.hasBits {f : UInt32} {i : Nat} (hf : IsBit f i) (hi : i < 32) (x : UInt32) :
    hasBits x f = x.toBitVec.getLsbD i := by
  have hand : (x &&& f).toBitVec = if x.toBitVec.getLsbD i then BitVec.twoPow 32 i else 0 := by
    rw [UInt32.toBitVec_and, hf, BitVec.and_twoPow]
    rfl
  cases hbit : x.toBitVec.getLsbD i with
  | false =>
    rw [hbit] at hand
    have hzero : x &&& f = 0 := UInt32.toBitVec_inj.mp hand
    simp [Smbfs.hasBits, hzero]
  | true =>
    rw [hbit] at hand
    have hne : x &&& f ≠ 0 := by
      intro hzero
      rw [hzero] at hand
      have h := congrArg (fun b => b.getLsbD i) hand
      simp [hi] at h
    simp [Smbfs.hasBits, hne]

/-- A flag of one bit lies in the words with which it has a bit in common. -/
theorem Within.of_hasBits {f x : UInt32} {i : Nat} (hf : IsBit f i) (hi : i < 32)
    (h : hasBits x f = true) : Within f x := by
  rw [hf.hasBits hi] at h
  intro j hj
  rw [hf, BitVec.getLsbD_twoPow, Bool.and_eq_true, decide_eq_true_iff, decide_eq_true_iff] at hj
  obtain ⟨-, rfl⟩ := hj
  exact h

theorem echoedFlags_isBit : ∀ f ∈ echoedFlags, ∃ i < 32, IsBit f i := by
  have hbits : echoedFlags ⊆ (List.range 32).map fun i => ⟨BitVec.twoPow 32 i⟩ := by decide
  intro f hf
  obtain ⟨i, hi, rfl⟩ := List.mem_map.mp (hbits hf)
  exact ⟨i, List.mem_range.mp hi, rfl⟩

/-- A loop that adds flags of the client adds nothing else. -/
theorem within_foldl {c x y : UInt32} (fs : List UInt32) (hx : Within x y) (hc : Within c y)
    (hfs : ∀ f ∈ fs, ∃ i < 32, IsBit f i) :
    Within (fs.foldl (fun x f => if hasBits c f then x ||| f else x) x) y := by
  induction fs generalizing x with
  | nil => exact hx
  | cons f fs ih =>
    rw [List.forall_mem_cons] at hfs
    obtain ⟨⟨i, hi, hf⟩, hfs⟩ := hfs
    refine ih ?_ hfs
    dsimp only
    split
    · rename_i h
      exact hx.or ((Within.of_hasBits hf hi h).trans hc)
    · exact hx

theorem buildResponseFlags_within (a : NTLMAuthenticator) :
    Within a.buildResponseFlags (ntlmFlagNegotiateNTLM ||| a.clientFlags) := by
  have hecho := within_foldl echoedFlags (Within.or_left ntlmFlagNegotiateNTLM a.clientFlags)
    (Within.or_right _ _) echoedFlags_isBit
  unfold buildResponseFlags
  dsimp only
  split
  · rename_i h
    rw [Bool.and_eq_true] at h
    have hlm : Within ntlmFlagNegotiateLMKey a.clientFlags :=
      .of_hasBits (i := 7) rfl (by decide) h.1
    exact hecho.or (hlm.trans (.or_right _ _))
  · exact hecho

/-! ## The message -/

/-- Whether the challenge has target info. -/
def includesTargetInfo (a : NTLMAuthenticator) : Bool :=
  hasBits a.clientFlags ntlmFlagNegotiateTargetInfo ||
    hasBits a.clientFlags ntlmFlagNegotiateExtendedSessionSec

def challengeFlags (a : NTLMAuthenticator) : UInt32 :=
  if a.includesTargetInfo then a.buildResponseFlags ||| ntlmFlagNegotiateTargetInfo
  else a.buildResponseFlags

/-- The eight bytes at 40. -/
def targetInfoField (a : NTLMAuthenticator) : Bytes :=
  let nameLen := (encodeStringToUTF16LE a.targetName).length
  if a.includesTargetInfo then
    putUint16 (UInt16.ofNat (2 * nameLen + 24)) ++ putUint16 (UInt16.ofNat (2 * nameLen + 24)) ++
      putUint32 (UInt32.ofNat (56 + nameLen))
  else zeros 8

/-- The 56 bytes in front of the target name. -/
def challengeHead (a : NTLMAuthenticator) : Bytes :=
  let nameLen := UInt16.ofNat (encodeStringToUTF16LE a.targetName).length
  ntlmSignature ++ putUint32 2 ++ putUint16 nameLen ++ putUint16 nameLen ++ putUint32 56 ++
    putUint32 a.challengeFlags ++ slice (a.serverChallenge ++ zeros 8) 0 8 ++ zeros 8 ++
    a.targetInfoField ++ [6, 1] ++ putUint16 7601 ++ [0, 0, 0, 15]

theorem buildChallengeMessage_eq (a : NTLMAuthenticator) (now : GoTime) :
    a.buildChallengeMessage now = a.challengeHead ++ (encodeStringToUTF16LE a.targetName ++
      if a.includesTargetInfo then a.buildTargetInfo now else []) := by
  unfold buildChallengeMessage challengeHead targetInfoField challengeFlags
  cases h : a.includesTargetInfo with
  | true =>
    rw [includesTargetInfo] at h
    simp [h, length_buildTargetInfo, List.append_assoc]
  | false =>
    rw [includesTargetInfo] at h
    simp [h, List.append_assoc]

theorem length_targetInfoField (a : NTLMAuthenticator) : a.targetInfoField.length = 8 := by
  unfold targetInfoField
  dsimp only
  split <;> rfl

variable {a : NTLMAuthenticator} (now : GoTime)

section

variable (h : a.serverChallenge.length = 8)

include h

theorem slice_challenge : slice (a.serverChallenge ++ zeros 8) 0 8 = a.serverChallenge :=
  List.take_left' h

theorem length_challengeHead : a.challengeHead.length = 56 := by
  unfold challengeHead
  rw [slice_challenge h]
  simp [h, length_targetInfoField, ntlmSignature, putUint32, putUint16, zeros]

/-- A slice of the message in its head. -/
theorem slice_buildChallengeMessage {i n : Nat}
    (hin : i + n ≤ 56) : slice (a.buildChallengeMessage now) i n = slice a.challengeHead i n := by
  rw [buildChallengeMessage_eq]
  exact slice_append_left _ (by rw [length_challengeHead h]; exact hin)

theorem slice_challengeHead_challenge : slice a.challengeHead 24 8 = a.serverChallenge := by
  unfold challengeHead
  rw [slice_challenge h, List.append_assoc, List.append_assoc, List.append_assoc,
    List.append_assoc, List.append_assoc]
  exact slice_of_append rfl h

theorem slice_challengeHead_targetInfo : slice a.challengeHead 40 8 = a.targetInfoField := by
  unfold challengeHead
  rw [slice_challenge h, List.append_assoc, List.append_assoc, List.append_assoc]
  refine slice_of_append ?_ a.length_targetInfoField
  simp [h, ntlmSignature, putUint32, putUint16, zeros]

theorem flagsOf_buildChallengeMessage :
    flagsOf (a.buildChallengeMessage now) = a.challengeFlags := by
  rw [flagsOf, slice_buildChallengeMessage now h (by decide)]
  exact getUint32_put _

theorem designated_targetName (hlen : (encodeStringToUTF16LE a.targetName).length < 65536) :
    designated (a.buildChallengeMessage now) 12 = some (encodeStringToUTF16LE a.targetName) := by
  have hn : (getUint16 (slice (a.buildChallengeMessage now) 12 2)).toNat =
      (encodeStringToUTF16LE a.targetName).length := by
    rw [slice_buildChallengeMessage now h (by decide)]
    change (getUint16 (putUint16 _)).toNat = _
    rw [getUint16_put, UInt16.toNat_ofNat']
    omega
  have hoff : (getUint32 (slice (a.buildChallengeMessage now) 16 4)).toNat = 56 := by
    rw [slice_buildChallengeMessage now h (by decide)]
    change (getUint32 (putUint32 56)).toNat = _
    rw [getUint32_put]
    rfl
  have hslice : slice (a.buildChallengeMessage now) 56 (encodeStringToUTF16LE a.targetName).length =
      encodeStringToUTF16LE a.targetName := by
    rw [buildChallengeMessage_eq]
    exact slice_of_append (length_challengeHead h) rfl
  have hfits : 56 + (encodeStringToUTF16LE a.targetName).length ≤
      (a.buildChallengeMessage now).length := by
    rw [buildChallengeMessage_eq, List.length_append, List.length_append, length_challengeHead h]
    omega
  rw [designated, hn, hoff, if_pos hfits, hslice]

end

/-- The challenge has the `TARGET_INFO` flag if it has target info. -/
theorem hasBits_challengeFlags (a : NTLMAuthenticator) :
    hasBits a.challengeFlags ntlmFlagNegotiateTargetInfo = a.includesTargetInfo := by
  have hbit : IsBit ntlmFlagNegotiateTargetInfo 23 := rfl
  rw [hbit.hasBits (by decide), challengeFlags]
  cases h : a.includesTargetInfo with
  | true =>
    rw [if_pos rfl, UInt32.toBitVec_or, BitVec.getLsbD_or, hbit, BitVec.getLsbD_twoPow]
    simp
  | false =>
    rw [if_neg Bool.false_ne_true]
    rw [includesTargetInfo, Bool.or_eq_false_iff, hbit.hasBits (by decide)] at h
    -- the bit is neither the one the server sets nor one of the client
    rw [← Bool.not_eq_true]
    intro hflag
    have hsent := a.buildResponseFlags_within 23 hflag
    rw [UInt32.toBitVec_or, BitVec.getLsbD_or, h.1] at hsent
    revert hsent
    decide

theorem challengeFlags_within (a : NTLMAuthenticator) :
    Within a.challengeFlags
      (ntlmFlagNegotiateNTLM ||| ntlmFlagNegotiateTargetInfo ||| a.clientFlags) := by
  have hallowed : Within a.buildResponseFlags
      (ntlmFlagNegotiateNTLM ||| ntlmFlagNegotiateTargetInfo ||| a.clientFlags) :=
    a.buildResponseFlags_within.trans
      (.or ((Within.or_left _ _).trans (.or_left _ _)) (.or_right _ _))
  unfold challengeFlags
  split
  · exact hallowed.or ((Within.or_right _ _).trans (.or_left _ _))
  · exact hallowed

theorem slice_slice (b : Bytes) {i n j k : Nat} (h : j + k ≤ n) :
    slice (slice b i n) j k = slice b (i + j) k := by
  rw [slice, slice, slice, List.drop_take, List.take_take, List.drop_drop,
    Nat.min_eq_left (by omega)]

/-- With target info, the field at 40 designates it, and it ends the message. -/
theorem designated_targetInfo (h : a.serverChallenge.length = 8)
    (hlen : 2 * (encodeStringToUTF16LE a.targetName).length + 24 < 65536)
    (hinfo : a.includesTargetInfo = true) :
    designated (a.buildChallengeMessage now) 40 = some (a.buildTargetInfo now) ∧
      designatedEnd (a.buildChallengeMessage now) 40 = (a.buildChallengeMessage now).length := by
  have hfield : slice (a.buildChallengeMessage now) 40 8 = a.targetInfoField := by
    rw [slice_buildChallengeMessage now h (by decide), slice_challengeHead_targetInfo h]
  rw [targetInfoField, if_pos hinfo] at hfield
  have hn : (getUint16 (slice (a.buildChallengeMessage now) 40 2)).toNat =
      (a.buildTargetInfo now).length := by
    rw [← slice_slice _ (show 0 + 2 ≤ 8 by decide), hfield]
    change (getUint16 (putUint16 _)).toNat = _
    rw [getUint16_put, UInt16.toNat_ofNat', length_buildTargetInfo]
    omega
  have hoff : (getUint32 (slice (a.buildChallengeMessage now) 44 4)).toNat =
      56 + (encodeStringToUTF16LE a.targetName).length := by
    rw [← slice_slice _ (show 4 + 4 ≤ 8 by decide), hfield]
    change (getUint32 (putUint32 _)).toNat = _
    rw [getUint32_put, UInt32.toNat_ofNat']
    omega
  have hmsg : a.buildChallengeMessage now =
      a.challengeHead ++ encodeStringToUTF16LE a.targetName ++ (a.buildTargetInfo now ++ []) := by
    rw [buildChallengeMessage_eq, if_pos hinfo, List.append_nil, List.append_assoc]
  have hend : 56 + (encodeStringToUTF16LE a.targetName).length + (a.buildTargetInfo now).length =
      (a.buildChallengeMessage now).length := by
    rw [hmsg, List.append_nil, List.length_append, List.length_append, length_challengeHead h]
  constructor
  · rw [designated, hn, hoff, if_pos (Nat.le_of_eq hend), hmsg]
    rw [slice_of_append (by rw [List.length_append, length_challengeHead h]) rfl]
  · rw [designatedEnd, hn, hoff, hend]

/-- The field at 40 is zero exactly without target info: with it, its first two bytes
are a length between 24 and 65535. -/
theorem targetInfoField_ne_zeros
    (hlen : 2 * (encodeStringToUTF16LE a.targetName).length + 24 < 65536) :
    a.targetInfoField ≠ zeros 8 ↔ a.includesTargetInfo = true := by
  unfold targetInfoField
  cases a.includesTargetInfo with
  | false => simp
  | true =>
    refine ⟨fun _ => rfl, fun _ hzero => ?_⟩
    have hread := congrArg (fun b => (getUint16 b).toNat) hzero
    simp only [if_pos, List.append_assoc, getUint16_putUint16, UInt16.toNat_ofNat'] at hread
    rw [show (getUint16 (zeros 8)).toNat = 0 from rfl] at hread
    omega

/-- The client finds in the challenge what the server put there, wherever the
variable parts fall. -/
theorem buildChallengeMessage_layout (a : NTLMAuthenticator) (now : GoTime)
    (hchallenge : a.serverChallenge.length = 8)
    (hlen : 2 * (encodeStringToUTF16LE a.targetName).length + 24 < 65536) :
    ChallengeLayout a (a.buildChallengeMessage now) where
  targetName := designated_targetName now hchallenge (by omega)
  challenge := by
    rw [slice_buildChallengeMessage now hchallenge (by decide),
      slice_challengeHead_challenge hchallenge]
  flags := by
    rw [flagsOf_buildChallengeMessage now hchallenge]
    exact a.challengeFlags_within.and_not
  present := by
    rw [slice_buildChallengeMessage now hchallenge (by decide),
      slice_challengeHead_targetInfo hchallenge, targetInfoField_ne_zeros hlen,
      flagsOf_buildChallengeMessage now hchallenge, hasBits_challengeFlags]
  targetInfo := by
    intro hflag
    rw [flagsOf_buildChallengeMessage now hchallenge, hasBits_challengeFlags] at hflag
    obtain ⟨hinfo, hend⟩ := designated_targetInfo now hchallenge hlen hflag
    exact ⟨a.buildTargetInfo now, putUint64 (timeToFiletime now), hinfo, hend, rfl,
      walkAvPairs_buildTargetInfo a now (by omega)⟩

/-- A server named `S` that answers a client of extended session security. -/
theorem buildChallengeMessage_layout_server :
    ChallengeLayout ⟨[1, 2, 3, 4, 5, 6, 7, 8], ['S'], ∅, true, 0, 0x00080201⟩
      (NTLMAuthenticator.buildChallengeMessage
        ⟨[1, 2, 3, 4, 5, 6, 7, 8], ['S'], ∅, true, 0, 0x00080201⟩ 0) :=
  buildChallengeMessage_layout ⟨[1, 2, 3, 4, 5, 6, 7, 8], ['S'], ∅, true, 0, 0x00080201⟩ 0 rfl
    (by decide)

end NTLMAuthenticator

end Smbfs
