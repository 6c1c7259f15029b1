import Smbfs.Lib.Run
import Smbfs.Server.Session

/-!
The GUID index of the session manager, `session_manager.go`.

The index has one session for a GUID, the table may have several.
`CreateSession` makes the index lead to the new session; removing any session
takes the entry of its GUID away, also when it led to another one.

* `Removes`: what the removal of some sessions does to the table and the index;
* `indexRight_iff_of_removes`: the index is right after a removal exactly if all
  sessions of each client are removed together;
* `guid_index_iff`: so for whole runs.
-/

namespace Smbfs

open Smbfs.Lib

inductive SessionOp where
  | create (rand : Option UInt64) (now : GoTime) (dialect : SMBDialect) (clientGUID : Bytes)
      (clientIP : Str)
  | destroy (id : UInt64)
  | cleanup (now : GoTime)

namespace SessionManager

variable {m m' m'' : SessionManager} {guid : Bytes} {r : SessionRef}

def step (m : SessionManager) : SessionOp → SessionManager
  | .create rand now dialect clientGUID clientIP =>
    m.createSession rand now dialect clientGUID clientIP
  | .destroy id => m.destroySession id
  | .cleanup now => m.cleanupExpired now

/-- The session is in the table and has the GUID. -/
def OfClient (m : SessionManager) (guid : Bytes) (r : SessionRef) : Prop :=
  r ∈ m.sessions.values ∧ (m.heap r).clientGUID = guid

/-- The most recently created session of the client that is in the table;
`CreateSession` gives out the references in increasing order. -/
def Newest (m : SessionManager) (guid : Bytes) (r : SessionRef) : Prop :=
  m.OfClient guid r ∧ ∀ r', m.OfClient guid r' → r' ≤ r

/-- `GetSessionByGUID` returns the newest session of a client, and nil exactly
if the client has none. -/
structure IndexRight (m : SessionManager) : Prop where
  newest : ∀ guid, guid ≠ zeros 16 → ∀ r, m.getSessionByGUID guid = some r ↔ m.Newest guid r
  absent : ∀ guid, guid ≠ zeros 16 →
    (m.getSessionByGUID guid = none ↔ ∀ r, ¬ m.OfClient guid r)

/-- A session is not created with the ID of another one. -/
def FreshID (m : SessionManager) : SessionOp → Prop
  | .create rand _ _ _ _ => m.sessions.lookup (m.newSessionID rand) = none
  | _ => True

instance : (op : SessionOp) → Decidable (m.FreshID op)
  | .create rand _ _ _ _ =>
    inferInstanceAs (Decidable (m.sessions.lookup (m.newSessionID rand) = none))
  | .destroy _ | .cleanup _ => inferInstanceAs (Decidable True)

/-- The sessions that an operation takes out of the table. -/
def removed (m : SessionManager) : SessionOp → List SessionRef
  | .create .. => []
  | .destroy id => (m.sessions.lookup id).toList
  | .cleanup now => (m.expired now).map Prod.snd

/-- With one session of a client, all of them are removed. -/
def RemovesWhole (m : SessionManager) (op : SessionOp) : Prop :=
  ∀ r ∈ m.removed op, (m.heap r).clientGUID ≠ zeros 16 →
    ∀ r' ∈ m.sessions.values, (m.heap r').clientGUID = (m.heap r).clientGUID → r' ∈ m.removed op

instance (op : SessionOp) : Decidable (m.RemovesWhole op) :=
  inferInstanceAs (Decidable (∀ r ∈ m.removed op, (m.heap r).clientGUID ≠ zeros 16 →
    ∀ r' ∈ m.sessions.values, (m.heap r').clientGUID = (m.heap r).clientGUID →
      r' ∈ m.removed op))

/-! ## Removing sessions -/

/-- The sessions of `X` are taken out of the table, and the entries of their
GUIDs out of the index. -/
structure Removes (m m' : SessionManager) (X : SessionRef → Prop) : Prop where
  heap_eq : m'.heap = m.heap
  mem_values : ∀ r, r ∈ m'.sessions.values ↔ r ∈ m.sessions.values ∧ ¬ X r
  erased : ∀ guid, guid ≠ zeros 16 → (∃ r, X r ∧ m.OfClient guid r) →
    m'.getSessionByGUID guid = none
  kept : ∀ guid, guid ≠ zeros 16 → (∀ r, X r → ¬ m.OfClient guid r) →
    m'.getSessionByGUID guid = m.getSessionByGUID guid

namespace Removes

variable {X Y : SessionRef → Prop}

theorem nothing (m : SessionManager) : Removes m m fun _ => False := by
  constructor
  · rfl
  · intro r
    rw [not_false_iff, and_true]
  · rintro guid - ⟨r, h, -⟩
    exact h.elim
  · intros
    rfl

theorem ofClient (h : Removes m m' X) : m'.OfClient guid r ↔ m.OfClient guid r ∧ ¬ X r := by
  rw [OfClient, OfClient, h.mem_values, h.heap_eq, and_right_comm]

theorem trans (h : Removes m m' X) (h' : Removes m' m'' Y) : Removes m m'' fun r => X r ∨ Y r := by
  constructor
  · exact h'.heap_eq.trans h.heap_eq
  · intro r
    rw [h'.mem_values, h.mem_values, not_or, and_assoc]
  · intro guid hguid hsome
    by_cases hY : ∃ r, Y r ∧ m'.OfClient guid r
    · exact h'.erased guid hguid hY
    · have hX : ∃ r, X r ∧ m.OfClient guid r := by
        obtain ⟨r, hr, hof⟩ := hsome
        by_cases hXr : X r
        · exact ⟨r, hXr, hof⟩
        · exact absurd ⟨r, hr.resolve_left hXr, h.ofClient.mpr ⟨hof, hXr⟩⟩ hY
      rw [h'.kept guid hguid fun r hr hof => hY ⟨r, hr, hof⟩]
      exact h.erased guid hguid hX
  · intro guid hguid hnone
    rw [h'.kept guid hguid fun r hr hof => hnone r (.inr hr) (h.ofClient.mp hof).1]
    exact h.kept guid hguid fun r hr => hnone r (.inl hr)

theorem congr (h : Removes m m' X) (hXY : ∀ r, X r ↔ Y r) : Removes m m' Y := by
  have heq : X = Y := funext fun r => propext (hXY r)
  exact heq ▸ h

end Removes

section Destroy

variable {id : UInt64} {gone : SessionRef} (hid : m.sessions.lookup id = some gone)

include hid

theorem mem_values_destroySession (hwf : m.WF) :
    r ∈ (m.destroySession id).sessions.values ↔ r ∈ m.sessions.values ∧ ¬ gone = r := by
  simp only [GoMap.mem_values, destroySession_lookup, Option.ite_none_left_eq_some]
  constructor
  · rintro ⟨id', hne, hr⟩
    refine ⟨⟨id', hr⟩, ?_⟩
    rintro rfl
    -- a session stands in the table under its own ID only
    exact hne ((hwf.id_eq id' _ hr).symm.trans (hwf.id_eq id _ hid))
  · rintro ⟨⟨id', hr⟩, hne⟩
    refine ⟨id', ?_, hr⟩
    rintro rfl
    exact hne (Option.some.inj (hid.symm.trans hr))

theorem getSessionByGUID_destroySession (hguid : guid ≠ zeros 16) :
    (m.destroySession id).getSessionByGUID guid =
      if guid = (m.heap gone).clientGUID then none else m.getSessionByGUID guid := by
  rw [getSessionByGUID]
  simp only [destroySession, hid]
  split
  · next hzero => rw [if_neg (hzero ▸ hguid), getSessionByGUID]
  · exact GoMap.lookup_erase _ _ _

end Destroy

theorem removes_destroySession (hwf : m.WF) (id : UInt64) :
    Removes m (m.destroySession id) fun r => m.sessions.lookup id = some r := by
  cases hid : m.sessions.lookup id with
  | none =>
    have hsame : m.destroySession id = m := by simp only [destroySession, hid]
    rw [hsame]
    exact (Removes.nothing m).congr fun r => by simp
  | some gone =>
    have hgone : m.OfClient (m.heap gone).clientGUID gone := ⟨GoMap.mem_values.mpr ⟨id, hid⟩, rfl⟩
    constructor
    · exact destroySession_heap m id
    · intro r
      rw [Option.some.injEq, mem_values_destroySession hid hwf]
    · rintro guid hguid ⟨r, hr, -, rfl⟩
      cases hr
      rw [getSessionByGUID_destroySession hid hguid, if_pos rfl]
    · intro guid hguid hnone
      rw [getSessionByGUID_destroySession hid hguid, if_neg]
      rintro rfl
      exact hnone gone rfl hgone

theorem removes_foldl (hwf : m.WF) (l : List (UInt64 × SessionRef)) :
    Removes m (l.foldl (fun m e => m.destroySession e.1) m)
      fun r => ∃ e ∈ l, m.sessions.lookup e.1 = some r := by
  induction l generalizing m with
  | nil => exact (Removes.nothing m).congr fun r => by simp
  | cons e l ih =>
    refine ((removes_destroySession hwf e.1).trans (ih (hwf.destroySession e.1))).congr fun r => ?_
    simp only [destroySession_lookup, Option.ite_none_left_eq_some, List.exists_mem_cons_iff]
    constructor
    · rintro (hr | ⟨e', he', -, hr⟩)
      · exact .inl hr
      · exact .inr ⟨e', he', hr⟩
    · rintro (hr | ⟨e', he', hr⟩)
      · exact .inl hr
      · by_cases hid : e'.1 = e.1
        · exact .inl (hid ▸ hr)
        · exact .inr ⟨e', he', hid, hr⟩

theorem removes_cleanupExpired (hwf : m.WF) (now : GoTime) :
    Removes m (m.cleanupExpired now) (· ∈ (m.expired now).map Prod.snd) := by
  refine (removes_foldl hwf (m.expired now)).congr fun r => ?_
  have hlookup : ∀ e ∈ m.expired now, m.sessions.lookup e.1 = some e.2 := fun e he =>
    GoMap.mem_pairs.mp (List.mem_filter.mp he).1
  rw [List.mem_map]
  constructor
  · rintro ⟨e, he, hr⟩
    exact ⟨e, he, Option.some.inj ((hlookup e he).symm.trans hr)⟩
  · rintro ⟨e, he, rfl⟩
    exact ⟨e, he, hlookup e he⟩

/-- If no session of a client stays behind another one, a client loses its entry
with all its sessions, or keeps both. -/
theorem Removes.client_cases {X : SessionRef → Prop} (h : Removes m m' X) (hguid : guid ≠ zeros 16)
    (hwhole : ∀ r, X r → m.OfClient guid r → ∀ r', m.OfClient guid r' → X r') :
    (m'.getSessionByGUID guid = none ∧ ∀ r, ¬ m'.OfClient guid r) ∨
    (m'.getSessionByGUID guid = m.getSessionByGUID guid ∧
      ∀ r, m'.OfClient guid r ↔ m.OfClient guid r) := by
  by_cases hsome : ∃ r, X r ∧ m.OfClient guid r
  · obtain ⟨r, hr, hof⟩ := hsome
    refine .inl ⟨h.erased guid hguid ⟨r, hr, hof⟩, fun r' hof' => ?_⟩
    obtain ⟨hof', hstays⟩ := h.ofClient.mp hof'
    exact hstays (hwhole r hr hof r' hof')
  · have hnone : ∀ r, X r → ¬ m.OfClient guid r := fun r hr hof => hsome ⟨r, hr, hof⟩
    refine .inr ⟨h.kept guid hguid hnone, fun r => ?_⟩
    rw [h.ofClient, and_iff_left_iff_imp]
    exact fun hof hr => hnone r hr hof

/-- After a removal the index is right exactly if no session of a client stays
behind another one. -/
theorem indexRight_iff_of_removes {X : SessionRef → Prop} (hright : m.IndexRight)
    (h : Removes m m' X) :
    m'.IndexRight ↔ ∀ guid, guid ≠ zeros 16 → ∀ r, X r → m.OfClient guid r →
      ∀ r', m.OfClient guid r' → X r' := by
  constructor
  · intro hright' guid hguid r hr hof r' hof'
    by_contra hstays
    have hnil := h.erased guid hguid ⟨r, hr, hof⟩
    exact (hright'.absent guid hguid).mp hnil r' (h.ofClient.mpr ⟨hof', hstays⟩)
  · intro hwhole
    constructor
    · intro guid hguid r
      rcases h.client_cases hguid (hwhole guid hguid) with ⟨hnil, hnone⟩ | ⟨hsame, hof⟩
      · rw [hnil]
        exact iff_of_false (Option.some_ne_none r).symm fun hr => hnone r hr.1
      · rw [hsame, hright.newest guid hguid]
        simp only [Newest, hof]
    · intro guid hguid
      rcases h.client_cases hguid (hwhole guid hguid) with ⟨hnil, hnone⟩ | ⟨hsame, hof⟩
      · exact iff_of_true hnil hnone
      · rw [hsame, hright.absent guid hguid]
        simp only [hof]

/-! ## Creating a session -/

section Create

variable {rand : Option UInt64} {now : GoTime} {dialect : SMBDialect} {clientGUID : Bytes}
  {clientIP : Str}

theorem lt_nextRef_of_mem_values (hwf : m.WF) (hr : r ∈ m.sessions.values) : r < m.nextRef := by
  obtain ⟨id, hid⟩ := GoMap.mem_values.mp hr
  exact hwf.lt_next id r hid

theorem mem_values_createSession (hfresh : m.sessions.lookup (m.newSessionID rand) = none) :
    r ∈ (m.createSession rand now dialect clientGUID clientIP).sessions.values ↔
      r = m.nextRef ∨ r ∈ m.sessions.values := by
  simp only [GoMap.mem_values, createSession_lookup]
  constructor
  · rintro ⟨id, hid⟩
    split at hid
    · exact .inl (Option.some.inj hid).symm
    · exact .inr ⟨id, hid⟩
  · rintro (rfl | ⟨id, hid⟩)
    · exact ⟨_, if_pos rfl⟩
    · refine ⟨id, ?_⟩
      rw [if_neg, hid]
      rintro rfl
      exact Option.some_ne_none r (hid.symm.trans hfresh)

theorem ofClient_createSession (hwf : m.WF)
    (hfresh : m.sessions.lookup (m.newSessionID rand) = none) :
    (m.createSession rand now dialect clientGUID clientIP).OfClient guid r ↔
      (r = m.nextRef ∧ clientGUID = guid) ∨ m.OfClient guid r := by
  rw [OfClient, OfClient, mem_values_createSession hfresh]
  by_cases hr : r = m.nextRef
  · have hnew : m.nextRef ∉ m.sessions.values := fun h =>
      Nat.lt_irrefl _ (lt_nextRef_of_mem_values hwf h)
    subst hr
    simp [createSession, Session.new, hnew]
  · simp [createSession, hr]

theorem getSessionByGUID_createSession (hguid : guid ≠ zeros 16) :
    (m.createSession rand now dialect clientGUID clientIP).getSessionByGUID guid =
      if guid = clientGUID then some m.nextRef else m.getSessionByGUID guid := by
  rw [getSessionByGUID]
  simp only [createSession]
  split
  · next hzero => rw [if_neg (hzero ▸ hguid), getSessionByGUID]
  · exact GoMap.lookup_insert _ _ _ _

/-- The new session is the newest one of its client, and the other clients keep theirs. -/
theorem IndexRight.createSession (hwf : m.WF) (hright : m.IndexRight)
    (hfresh : m.sessions.lookup (m.newSessionID rand) = none) :
    (m.createSession rand now dialect clientGUID clientIP).IndexRight := by
  have hof : ∀ guid r, (m.createSession rand now dialect clientGUID clientIP).OfClient guid r ↔
      (r = m.nextRef ∧ clientGUID = guid) ∨ m.OfClient guid r :=
    fun _ _ => ofClient_createSession hwf hfresh
  have hnew := (hof clientGUID m.nextRef).mpr (.inl ⟨rfl, rfl⟩)
  have hother : ∀ guid, guid ≠ clientGUID → ∀ r,
      (m.createSession rand now dialect clientGUID clientIP).OfClient guid r ↔
        m.OfClient guid r := by
    intro guid hne r
    rw [hof, or_iff_right fun h => hne h.2.symm]
  constructor
  · intro guid hguid r
    rw [getSessionByGUID_createSession hguid]
    split
    · next hclient =>
      subst hclient
      constructor
      · rintro ⟨⟩
        refine ⟨hnew, fun r' hr' => ?_⟩
        rcases (hof _ _).mp hr' with ⟨rfl, -⟩ | hr'
        · exact Nat.le_refl _
        · exact Nat.le_of_lt (lt_nextRef_of_mem_values hwf hr'.1)
      · rintro ⟨hr, hmax⟩
        rcases (hof _ _).mp hr with ⟨rfl, -⟩ | hr
        · rfl
        · exact absurd (lt_nextRef_of_mem_values hwf hr.1) (Nat.not_lt.mpr (hmax _ hnew))
    · next hclient =>
      rw [hright.newest guid hguid]
      simp only [Newest, hother guid hclient]
  · intro guid hguid
    rw [getSessionByGUID_createSession hguid]
    split
    · next hclient =>
      subst hclient
      exact iff_of_false (Option.some_ne_none _) fun h => h _ hnew
    · next hclient =>
      rw [hright.absent guid hguid]
      simp only [hother guid hclient]

end Create

/-! ## Runs -/

theorem IndexRight.new (idleLimit : Int) : (newSessionManager idleLimit).IndexRight := by
  constructor <;> simp [newSessionManager, getSessionByGUID, Newest, OfClient, GoMap.mem_values]

theorem WF.step (h : m.WF) (op : SessionOp) : (m.step op).WF := by
  cases op with
  | create rand now dialect clientGUID clientIP =>
    exact h.createSession rand now dialect clientGUID clientIP
  | destroy id => exact h.destroySession id
  | cleanup now => exact h.cleanupExpired now

theorem removesWhole_iff (m : SessionManager) (op : SessionOp)
    (hin : ∀ r ∈ m.removed op, r ∈ m.sessions.values) :
    m.RemovesWhole op ↔ ∀ guid, guid ≠ zeros 16 → ∀ r, r ∈ m.removed op → m.OfClient guid r →
      ∀ r', m.OfClient guid r' → r' ∈ m.removed op := by
  constructor
  · rintro h guid hguid r hr ⟨-, rfl⟩ r' ⟨hr', hsame⟩
    exact h r hr hguid r' hr' hsame
  · intro h r hr hguid r' hr' hsame
    exact h _ hguid r hr ⟨hin r hr, rfl⟩ r' ⟨hr', hsame⟩

/-- **One operation.** -/
theorem indexRight_step_iff (hwf : m.WF) (hright : m.IndexRight) {op : SessionOp}
    (hfresh : m.FreshID op) : (m.step op).IndexRight ↔ m.RemovesWhole op := by
  cases op with
  | create rand now dialect clientGUID clientIP =>
    exact iff_of_true (hright.createSession hwf hfresh) fun r hr => absurd hr List.not_mem_nil
  | destroy id =>
    have hremoves := (removes_destroySession hwf id).congr fun r =>
      (Option.mem_toList (o := m.sessions.lookup id) (a := r)).symm
    rw [removesWhole_iff]
    · exact indexRight_iff_of_removes hright hremoves
    · intro r hr
      exact GoMap.mem_values.mpr ⟨id, Option.mem_toList.mp hr⟩
  | cleanup now =>
    rw [removesWhole_iff]
    · exact indexRight_iff_of_removes hright (removes_cleanupExpired hwf now)
    · intro r hr
      obtain ⟨e, he, rfl⟩ := List.mem_map.mp hr
      exact GoMap.mem_values.mpr ⟨e.1, GoMap.mem_pairs.mp (List.mem_filter.mp he).1⟩

end SessionManager

open SessionManager

/-- **GUID index.** Over every sequence of operations with fresh IDs, the index
is right all the time exactly if every removal takes all sessions of each client
that it takes one of. -/
theorem guid_index_iff (idleLimit : Int) {ops : List SessionOp}
    (hfresh : Along step FreshID (newSessionManager idleLimit) ops) :
    Always step IndexRight (newSessionManager idleLimit) ops ↔
      Along step RemovesWhole (newSessionManager idleLimit) ops :=
  always_iff_along_of (I := fun m => m.WF ∧ m.IndexRight) (Q := IndexRight) (A := FreshID)
    (P := RemovesWhole)
    (fun _ op hI hfresh hwhole =>
      ⟨hI.1.step op, (indexRight_step_iff hI.1 hI.2 hfresh).mpr hwhole⟩)
    (fun _ hI => hI.2)
    (fun _ _ hI hfresh hwhole hright => hwhole ((indexRight_step_iff hI.1 hI.2 hfresh).mp hright))
    ⟨.new idleLimit, .new idleLimit⟩ hfresh

/-- `CreateSession` with a random ID. -/
def createOp (id : UInt64) (now : GoTime) (clientGUID : Bytes) : SessionOp :=
  .create (some id) now smb3_1_1 clientGUID []

theorem guid_index_two_clients :
    Always step IndexRight (newSessionManager 0)
      [createOp 5 0 (List.replicate 16 1), createOp 6 0 (List.replicate 16 2), .destroy 5,
        createOp 7 1 (List.replicate 16 1), .cleanup (fifteenMinutes + 1)] :=
  (guid_index_iff 0 (by decide +kernel)).mpr (by decide +kernel)

/-- Two sessions of one client, of which the older one is destroyed. -/
def sameClientOps : List SessionOp :=
  [createOp 5 0 (List.replicate 16 1), createOp 6 0 (List.replicate 16 1), .destroy 5]

/-- The newer session is in the table, and not found by its GUID. -/
theorem guid_index_lost :
    Along step FreshID (newSessionManager 0) sameClientOps ∧
      (runFrom step (newSessionManager 0) sameClientOps).getSession 6 = some 1 ∧
      ((runFrom step (newSessionManager 0) sameClientOps).heap 1).clientGUID = List.replicate 16 1 ∧
      (runFrom step (newSessionManager 0) sameClientOps).getSessionByGUID (List.replicate 16 1) =
        none := by
  decide +kernel

end Smbfs
