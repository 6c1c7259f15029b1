import Smbfs.System.Samples

/-!
What a successful NTLM authentication shows, for a sequence of security blobs
given to one authenticator.

* `authenticate_sound`: the user is configured, and whether the session key
  rests on a verified response is decided by the response alone;
* `guests_locked_out`: without guests nobody but a configured user is admitted;
* `unproved_response_accepted`: a response that proves nothing is accepted, with
  a key that the client cannot compute from it.
-/

namespace Smbfs

open Smbfs.Lib NTLMAuthenticator

variable {P : Platform}

/-- A call of `Authenticate`, with the clock and the random source as it finds them. -/
structure AuthCall where
  now : GoTime
  challenge : Bytes
  blob : Window UInt8

namespace AuthCall

/-- The type of the NTLM message in the blob. -/
def type (x : AuthCall) : Option UInt32 := messageType (ntlmBlob x.blob)

/-- The challenge that a Type 1 message is answered with. -/
def newChallenge (x : AuthCall) : Option Bytes :=
  if x.type = some 1 then some x.challenge else none

/-- The flags of a Type 1 message, if it is long enough to have them. -/
def flags (x : AuthCall) : Option UInt32 :=
  if x.type = some 1 ∧ (ntlmBlob x.blob).len ≥ 16 then
    some (getUint32 ((ntlmBlob x.blob).live.drop 12))
  else none

def on (P : Platform) (a : NTLMAuthenticator) (x : AuthCall) :
    Option (AuthResult × NTLMAuthenticator) := a.authenticate P x.now x.challenge x.blob

end AuthCall

/-- The authenticator after a call; a call that panics leaves it as it was. -/
def authStep (P : Platform) (a : NTLMAuthenticator) (x : AuthCall) : NTLMAuthenticator :=
  ((x.on P a).map Prod.snd).getD a

/-- The challenge of the most recent Type 1 message. -/
def lastChallenge (xs : List AuthCall) : Option Bytes := lastOf AuthCall.newChallenge xs

/-- The flags of the most recent Type 1 message that has any, and none before it. -/
def lastFlags (xs : List AuthCall) : UInt32 := (lastOf AuthCall.flags xs).getD 0

/-! ## The state of the authenticator -/

theorem checkCredentials_state (a : NTLMAuthenticator) (username domain : Str)
    (ntResponse encryptedSessionKey : Bytes) {res : AuthResult} {a' : NTLMAuthenticator}
    (h : a.checkCredentials P username domain ntResponse encryptedSessionKey = (res, a')) :
    a'.users = a.users ∧ a'.allowGuest = a.allowGuest ∧
      a'.serverChallenge = a.serverChallenge ∧ a'.clientFlags = a.clientFlags := by
  unfold checkCredentials at h
  split at h
  · split at h <;> cases h <;> exact ⟨rfl, rfl, rfl, rfl⟩
  · split at h
    · split at h <;> cases h <;> exact ⟨rfl, rfl, rfl, rfl⟩
    · split at h <;> cases h <;> exact ⟨rfl, rfl, rfl, rfl⟩

variable {a : NTLMAuthenticator} {x : AuthCall} {res : AuthResult} {a' : NTLMAuthenticator}

theorem handleAuthenticate_eq_some {blob : Window UInt8}
    (h : a.handleAuthenticate P blob = some (res, a')) :
    ∃ username domain ntResponse encryptedSessionKey, extractUsername blob = some username ∧
      extractDomain blob = some domain ∧ extractNTResponse blob = some ntResponse ∧
      extractEncryptedSessionKey blob = some encryptedSessionKey ∧
      a.checkCredentials P username domain ntResponse encryptedSessionKey = (res, a') := by
  obtain ⟨username, hu, h⟩ := Option.bind_eq_some_iff.mp h
  obtain ⟨domain, hd, h⟩ := Option.bind_eq_some_iff.mp h
  obtain ⟨ntResponse, hn, h⟩ := Option.bind_eq_some_iff.mp h
  obtain ⟨key, hk, h⟩ := Option.bind_eq_some_iff.mp h
  exact ⟨username, domain, ntResponse, key, hu, hd, hn, hk, Option.some.inj h⟩

/-- A call keeps the users and whether guests are admitted, and only a Type 1
message changes the challenge and the flags. -/
theorem authStep_state (a : NTLMAuthenticator) (x : AuthCall) :
    (authStep P a x).users = a.users ∧ (authStep P a x).allowGuest = a.allowGuest ∧
      (authStep P a x).serverChallenge = x.newChallenge.getD a.serverChallenge ∧
      (authStep P a x).clientFlags = x.flags.getD a.clientFlags := by
  unfold authStep AuthCall.on authenticate AuthCall.newChallenge AuthCall.flags AuthCall.type
  dsimp only
  cases htype : messageType (ntlmBlob x.blob) with
  | none => exact ⟨rfl, rfl, rfl, rfl⟩
  | some t =>
    simp only [Option.some.injEq]
    by_cases h1 : t = 1
    · rw [if_pos h1, if_pos h1]
      unfold NTLMAuthenticator.handleNegotiate
      dsimp only [Option.map_some, Option.getD_some]
      by_cases hlen : (ntlmBlob x.blob).len ≥ 16
      · rw [if_pos hlen, if_pos ⟨h1, hlen⟩]
        exact ⟨rfl, rfl, rfl, rfl⟩
      · rw [if_neg hlen, if_neg (mt And.right hlen)]
        exact ⟨rfl, rfl, rfl, rfl⟩
    · rw [if_neg h1, if_neg h1, if_neg (mt And.left h1)]
      split
      · cases hh : a.handleAuthenticate P (ntlmBlob x.blob) with
        | none => exact ⟨rfl, rfl, rfl, rfl⟩
        | some y =>
          obtain ⟨res, a'⟩ := y
          obtain ⟨_, _, _, _, -, -, -, -, hc⟩ := handleAuthenticate_eq_some hh
          exact checkCredentials_state a _ _ _ _ hc
      · exact ⟨rfl, rfl, rfl, rfl⟩

/-- After a sequence of calls the challenge is that of the last Type 1 message, and the
flags are those of the last one that has any. -/
theorem authRun_state (a : NTLMAuthenticator) (xs : List AuthCall) :
    (runFrom (authStep P) a xs).users = a.users ∧
      (runFrom (authStep P) a xs).serverChallenge = (lastChallenge xs).getD a.serverChallenge ∧
      (runFrom (authStep P) a xs).clientFlags = (lastOf AuthCall.flags xs).getD a.clientFlags := by
  refine ⟨?_, ?_, ?_⟩
  · exact runFrom_invariant (I := fun b => b.users = a.users)
      (fun b x h => (authStep_state b x).1.trans h) rfl xs
  · exact runFrom_lastOf (fun b x => (authStep_state b x).2.2.1) a xs
  · exact runFrom_lastOf (fun b x => (authStep_state b x).2.2.2) a xs

/-! ## Success -/

/-- The NT response proves knowledge of the password, for the challenge `c`. -/
def Proves (P : Platform) (username password domain : Str) (c ntResponse : Bytes) : Prop :=
  24 ≤ ntResponse.length ∧ ntResponse.take 16 =
    P.hmacMD5 (ntv2Hash P username password domain) (c ++ ntResponse.drop 16)

/-- The session key for a response. With a proof it is the base key, or, if the client asked
for the exchange of keys in `flags` and sent 16 bytes, these decrypted with the base key;
without one it is made from the challenge and the name. -/
def KeyFor (P : Platform) (username password domain : Str) (flags : UInt32)
    (c ntResponse encryptedSessionKey : Bytes) (key : Option Bytes) : Prop :=
  (Proves P username password domain c ntResponse →
    let base := P.hmacMD5 (ntv2Hash P username password domain) (ntResponse.take 16)
    key = some (if hasBits flags ntlmFlagNegotiateKeyExch ∧ encryptedSessionKey.length = 16 then
      P.rc4 base encryptedSessionKey else base)) ∧
  (¬ Proves P username password domain c ntResponse →
    key = some (P.hmacMD5 (ntv2Hash P username password domain) (c ++ utf8 username)))

theorem verify_keyFor (a : NTLMAuthenticator) (username password domain : Str)
    (ntResponse encryptedSessionKey : Bytes) {key : Bytes}
    (h : a.verifyAndComputeSessionKey P username password domain ntResponse encryptedSessionKey =
      some key) :
    KeyFor P username password domain a.clientFlags a.serverChallenge ntResponse
      encryptedSessionKey (some key) := by
  unfold verifyAndComputeSessionKey at h
  split at h
  · next hlen => exact ⟨fun hp => absurd hp.1 (Nat.not_le.mpr hlen), fun _ => h.symm⟩
  · dsimp only at h
    split at h
    · next hne => exact ⟨fun hp => absurd hp.2 hne, fun _ => h.symm⟩
    · next hlen heq =>
      rw [not_not] at heq
      refine ⟨fun _ => ?_, fun hn => absurd ⟨Nat.not_lt.mp hlen, heq⟩ hn⟩
      simp only [Bool.and_eq_true, beq_iff_eq] at h
      split at h
      · next hexch =>
        rw [rc4Decrypt] at h
        split at h
        · cases h
        · exact h.symm.trans (congrArg some (if_pos hexch).symm)
      · next hexch => exact h.symm.trans (congrArg some (if_neg hexch).symm)

variable {ntResponse encryptedSessionKey : Bytes} {username domain : Str}

theorem checkCredentials_success
    (h : a.checkCredentials P username domain ntResponse encryptedSessionKey = (res, a'))
    (hsuccess : res.success = true) (hguest : res.isGuest = false) :
    res.username = username ∧ res.domain = domain ∧ isGuestAttempt P username = false ∧
      ∃ password, a.users.lookup (P.upper username) = some password ∧
        KeyFor P username password domain a.clientFlags a.serverChallenge ntResponse
          encryptedSessionKey res.sessionKey := by
  unfold checkCredentials at h
  split at h
  · split at h
    · cases h; cases hguest
    · cases h; cases hsuccess
  · next hattempt =>
    split at h
    · split at h
      · cases h; cases hguest
      · cases h; cases hsuccess
    · next password hl =>
      split at h
      · cases h; cases hsuccess
      · next key hkey =>
        cases h
        exact ⟨rfl, rfl, by simpa using hattempt, password, hl, verify_keyFor a _ _ _ _ _ hkey⟩

/-- A call that returns handles a Type 3 message, admits a guest, or fails. -/
theorem on_cases (h : x.on P a = some (res, a')) :
    (x.type = some 3 ∧ a.handleAuthenticate P (ntlmBlob x.blob) = some (res, a')) ∨
      (a.allowGuest = true ∧ res.isGuest = true) ∨ (res.success = false ∧ res.isGuest = false) := by
  unfold AuthCall.on authenticate at h
  unfold AuthCall.type
  dsimp only at h
  cases htype : messageType (ntlmBlob x.blob) with
  | none =>
    rw [htype] at h
    simp only [Option.some.injEq, Prod.mk.injEq] at h
    obtain ⟨rfl, -⟩ := h
    split
    · next hallow => exact .inr (.inl ⟨hallow, rfl⟩)
    · exact .inr (.inr ⟨rfl, rfl⟩)
  | some t =>
    rw [htype] at h
    dsimp only at h
    split at h
    · cases h
      exact .inr (.inr ⟨rfl, rfl⟩)
    · split at h
      · next h3 => exact .inl ⟨by rw [h3], h⟩
      · cases h
        exact .inr (.inr ⟨rfl, rfl⟩)

/-- Only a Type 3 message succeeds for a user who is no guest. -/
theorem on_success (h : x.on P a = some (res, a')) (hsuccess : res.success = true)
    (hguest : res.isGuest = false) :
    x.type = some 3 ∧ a.handleAuthenticate P (ntlmBlob x.blob) = some (res, a') := by
  rcases on_cases h with hauth | ⟨-, hyes⟩ | ⟨hno, -⟩
  · exact hauth
  · cases hguest.symm.trans hyes
  · cases hno.symm.trans hsuccess

variable {users : GoMap Str Str}

/-- The table of a new authenticator has the configured users, in upper case. -/
theorem newNTLMAuthenticator_users {targetName : Str} {allowGuest : Bool}
    {name password : Str}
    (h : (newNTLMAuthenticator P targetName users allowGuest).users.lookup name = some password) :
    ∃ configured, users.lookup configured = some password ∧ P.upper configured = name := by
  refine foldl_invariant (I := fun m : GoMap Str Str => ∀ name password,
    m.lookup name = some password → ∃ configured, users.lookup configured = some password ∧
      P.upper configured = name) (fun m e he hm name password hl => ?_) ?_ name password h
  · rw [GoMap.lookup_insert] at hl
    split at hl
    · next heq =>
      cases hl
      exact ⟨e.1, GoMap.mem_pairs.mp he, heq.symm⟩
    · exact hm name password hl
  · intro name password hl
    simp at hl

/-- **Authentication.** When a call succeeds for a user `u` who is no guest, its
message is of Type 3 and names `u`, which is not a guest's name and is a
configured user up to case. If there was a Type 1 message before, then with
`c` the challenge of the most recent one the session key is the verified one
exactly for a response that proves knowledge of the password for `c`, and it is
what the client sent, decrypted, exactly under the exchange of keys. -/
theorem authenticate_sound (P : Platform) (targetName : Str) (users : GoMap Str Str)
    (allowGuest : Bool) (xs : List AuthCall) (x : AuthCall) (res : AuthResult)
    (a' : NTLMAuthenticator)
    (h : x.on P (runFrom (authStep P) (newNTLMAuthenticator P targetName users allowGuest) xs) =
      some (res, a'))
    (hsuccess : res.success = true) (hguest : res.isGuest = false) :
    x.type = some 3 ∧ isGuestAttempt P res.username = false ∧
    ∃ configured password ntResponse encryptedSessionKey,
      users.lookup configured = some password ∧ P.upper configured = P.upper res.username ∧
      extractUsername (ntlmBlob x.blob) = some res.username ∧
      extractDomain (ntlmBlob x.blob) = some res.domain ∧
      extractNTResponse (ntlmBlob x.blob) = some ntResponse ∧
      extractEncryptedSessionKey (ntlmBlob x.blob) = some encryptedSessionKey ∧
      ∀ c, lastChallenge xs = some c →
        KeyFor P res.username password res.domain (lastFlags xs) c ntResponse
          encryptedSessionKey res.sessionKey := by
  obtain ⟨htype, hauth⟩ := on_success h hsuccess hguest
  obtain ⟨username, domain, ntResponse, key, hu, hd, hn, hk, hcheck⟩ :=
    handleAuthenticate_eq_some hauth
  obtain ⟨rfl, rfl, hattempt, password, hl, hkey⟩ :=
    checkCredentials_success hcheck hsuccess hguest
  obtain ⟨husers, hchallenge, hflags⟩ :=
    authRun_state (P := P) (newNTLMAuthenticator P targetName users allowGuest) xs
  rw [husers] at hl
  obtain ⟨configured, hconf, hupper⟩ := newNTLMAuthenticator_users hl
  refine ⟨htype, hattempt, configured, password, ntResponse, key, hconf, hupper, hu, hd, hn, hk, ?_⟩
  intro c hc
  rw [hchallenge, hc, hflags] at hkey
  exact hkey

/-! ## Guests -/

/-- A result for a guest needs an authenticator that admits guests. -/
theorem checkCredentials_guest
    (h : a.checkCredentials P username domain ntResponse encryptedSessionKey = (res, a'))
    (hguest : res.isGuest = true) : a.allowGuest = true := by
  unfold checkCredentials at h
  split at h
  · split at h
    · next hallow => exact hallow
    · cases h; cases hguest
  · split at h
    · split at h
      · next hallow => exact hallow
      · cases h; cases hguest
    · split at h <;> cases h <;> cases hguest

theorem on_guest (h : x.on P a = some (res, a')) (hguest : res.isGuest = true) :
    a.allowGuest = true := by
  rcases on_cases h with ⟨-, hauth⟩ | ⟨hallow, -⟩ | ⟨-, hno⟩
  · obtain ⟨_, _, _, _, -, -, -, -, hcheck⟩ := handleAuthenticate_eq_some hauth
    exact checkCredentials_guest hcheck hguest
  · exact hallow
  · cases hno.symm.trans hguest

/-- A result that admits nobody but a configured user, under a name that is not
empty and not a guest's. -/
def AdmitsUser (P : Platform) (users : GoMap Str Str) (res : AuthResult) : Prop :=
  res.success = true →
    res.isGuest = false ∧ res.username ≠ [] ∧
    P.equalFold res.username ['g', 'u', 'e', 's', 't'] = false ∧
    P.equalFold res.username ['a', 'n', 'o', 'n', 'y', 'm', 'o', 'u', 's'] = false ∧
    ∃ configured, configured ∈ users ∧ P.upper res.username = P.upper configured

theorem on_admitsUser {targetName : Str}
    (husers : a.users = (newNTLMAuthenticator P targetName users false).users)
    (hallow : a.allowGuest = false) (h : x.on P a = some (res, a')) : AdmitsUser P users res := by
  intro hsuccess
  have hguest : res.isGuest = false := by
    by_contra hno
    have hyes := on_guest h (Bool.not_eq_false _ ▸ hno)
    rw [hallow] at hyes
    cases hyes
  obtain ⟨_, _, _, _, -, -, -, -, hcheck⟩ :=
    handleAuthenticate_eq_some (on_success h hsuccess hguest).2
  obtain ⟨rfl, -, hattempt, password, hlookup, -⟩ := checkCredentials_success hcheck hsuccess hguest
  rw [husers] at hlookup
  obtain ⟨configured, hconf, hupper⟩ := newNTLMAuthenticator_users hlookup
  simp only [isGuestAttempt, Bool.or_eq_false_iff, List.isEmpty_eq_false_iff] at hattempt
  obtain ⟨⟨hne, hnotGuest⟩, hnotAnonymous⟩ := hattempt
  have hmem : configured ∈ users := AList.lookup_isSome.mp (by rw [hconf]; rfl)
  exact ⟨hguest, hne, hnotGuest, hnotAnonymous, configured, hmem, hupper.symm⟩

/-- **Guests are locked out.** Of an authenticator that admits no guests, every
call of every sequence admits a configured user or nobody. -/
theorem guests_locked_out (P : Platform) (targetName : Str) (users : GoMap Str Str)
    (xs : List AuthCall) :
    Along (authStep P) (fun a x => ∀ res a', x.on P a = some (res, a') → AdmitsUser P users res)
      (newNTLMAuthenticator P targetName users false) xs := by
  refine along_imp (I := fun a => a.users = (newNTLMAuthenticator P targetName users false).users ∧
      a.allowGuest = false) (P := fun _ _ => True) ?_ ?_ ⟨rfl, rfl⟩ (along_of_forall fun _ _ => trivial)
  · rintro a x ⟨husers, hallow⟩ -
    obtain ⟨husers', hallow', -⟩ := authStep_state (P := P) a x
    exact ⟨husers'.trans husers, hallow'.trans hallow⟩
  · rintro a x ⟨husers, hallow⟩ - res a' h
    exact on_admitsUser husers hallow h

/-- A Type 1 message for the challenge of zeros. -/
def negotiateCall : AuthCall := ⟨0, zeros 8, .ofList (ntlmSignature ++ putUint32 1 ++ zeros 4)⟩

/-- A Type 3 message for the user `u`, without a response. -/
def bareCall : AuthCall := ⟨0, zeros 8, .ofList (authenticateMessage ['u'])⟩

/-- An authenticator with the user `U` that admits no guests. -/
def sampleAuthenticator : NTLMAuthenticator :=
  newNTLMAuthenticator samplePlatform ['S'] ((∅ : GoMap Str Str).insert ['U'] ['p']) false

/-- A Type 3 message that succeeds, after a Type 1 message. -/
theorem authenticate_sound_bare :
    ∃ res a', bareCall.on samplePlatform (authStep samplePlatform sampleAuthenticator
        negotiateCall) = some (res, a') ∧
      res.success = true ∧ res.isGuest = false ∧ bareCall.type = some 3 := by
  have hres : (bareCall.on samplePlatform (runFrom (authStep samplePlatform) sampleAuthenticator
      [negotiateCall])).map (fun y => (y.1.success, y.1.isGuest)) = some (true, false) := by
    decide +kernel
  obtain ⟨⟨res, a'⟩, hy, heq⟩ := Option.map_eq_some_iff.mp hres
  simp only [Prod.mk.injEq] at heq
  exact ⟨res, a', hy, heq.1, heq.2,
    (authenticate_sound samplePlatform _ _ _ [negotiateCall] bareCall res a' hy heq.1 heq.2).1⟩

/-- After a Type 1 message, a Type 3 message for a configured user succeeds with
an NT response of no bytes. -/
theorem unproved_response_accepted :
    (bareCall.on samplePlatform (runFrom (authStep samplePlatform) sampleAuthenticator
      [negotiateCall])).map (fun y => (y.1.success, y.1.isGuest, y.1.username)) =
      some (true, false, ['u']) ∧
    extractNTResponse (ntlmBlob bareCall.blob) = some [] := by
  decide +kernel

end Smbfs
