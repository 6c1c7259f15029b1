import Smbfs.Auth.Ntlm

/-!
Sessions and their tree connections, `session_manager.go`. Sessions are
pointers in the source, held by the session table, by the GUID index and by
the connections: the manager keeps a heap of sessions.

* `WF`: the table leads from an ID to a session with that ID;
* `createSession_lookup`, `destroySession_lookup`, `cleanupExpired_lookup`:
  what the operations do to the table.
-/

namespace Smbfs

open Smbfs.Lib

abbrev ShareRef := Nat
abbrev SessionRef := Nat

inductive SessionState where
  | inProgress
  | valid
  | expired
  deriving DecidableEq, Repr

structure TreeConnection where
  id : UInt32
  shareName : Str
  share : ShareRef
  createdAt : GoTime
  isReadOnly : Bool

structure Session where
  id : UInt64
  state : SessionState
  dialect : SMBDialect
  isGuest : Bool
  username : Str
  domain : Str
  signingKey : Option Bytes
  createdAt : GoTime
  lastActivity : GoTime
  clientGUID : Bytes
  clientIP : Str
  authenticator : Option NTLMAuthenticator
  trees : GoMap UInt32 TreeConnection
  nextID : UInt32

/-- The session `CreateSession` makes. -/
def Session.new (id : UInt64) (dialect : SMBDialect) (clientGUID : Bytes) (clientIP : Str)
    (now : GoTime) : Session where
  id := id
  state := .inProgress
  dialect := dialect
  isGuest := false
  username := []
  domain := []
  signingKey := none
  createdAt := now
  lastActivity := now
  clientGUID := clientGUID
  clientIP := clientIP
  authenticator := none
  trees := ∅
  nextID := 1

namespace Session

def setValid (s : Session) (username domain : Str) (isGuest : Bool) (signingKey : Option Bytes)
    (now : GoTime) : Session :=
  { s with
    state := .valid
    username := username
    domain := domain
    isGuest := isGuest
    signingKey := signingKey
    lastActivity := now }

/-- The tree connection `AddTreeConnection` makes. -/
def newTree (s : Session) (shareName : Str) (share : ShareRef) (readOnly : Bool) (now : GoTime) :
    TreeConnection := ⟨s.nextID, shareName, share, now, readOnly⟩

def addTreeConnection (s : Session) (tree : TreeConnection) : Session :=
  { s with nextID := s.nextID + 1, trees := s.trees.insert tree.id tree }

def removeTreeConnection (s : Session) (id : UInt32) : Session :=
  { s with trees := s.trees.erase id }

end Session

structure SessionManager where
  heap : SessionRef → Session
  nextRef : SessionRef
  sessions : GoMap UInt64 SessionRef
  byGUID : GoMap Bytes SessionRef
  nextID : UInt64
  idleLimit : Int

/-- Fifteen minutes, in nanoseconds. -/
def fifteenMinutes : Int := 900000000000

def newSessionManager (idleLimit : Int) : SessionManager where
  heap := fun _ => Session.new 0 0 [] [] GoTime.zero
  nextRef := 0
  sessions := ∅
  byGUID := ∅
  nextID := 1
  idleLimit := if idleLimit = 0 then fifteenMinutes else idleLimit

namespace SessionManager

/-- The ID of the next session: random, and the counter when the random
source gives zero or fails. -/
def newSessionID (m : SessionManager) (rand : Option UInt64) : UInt64 :=
  if rand.getD 0 = 0 then m.nextID else rand.getD 0

/-- `CreateSession`; the session is at the old `nextRef`. -/
def createSession (m : SessionManager) (rand : Option UInt64) (now : GoTime)
    (dialect : SMBDialect) (clientGUID : Bytes) (clientIP : Str) : SessionManager :=
  let session := Session.new (m.newSessionID rand) dialect clientGUID clientIP now
  { m with
    heap := Function.update m.heap m.nextRef session
    nextRef := m.nextRef + 1
    nextID := if rand.getD 0 = 0 then m.nextID + 1 else m.nextID
    sessions := m.sessions.insert session.id m.nextRef
    byGUID := if clientGUID = zeros 16 then m.byGUID else m.byGUID.insert clientGUID m.nextRef }

def getSession (m : SessionManager) (id : UInt64) : Option SessionRef := m.sessions.lookup id

def getSessionByGUID (m : SessionManager) (guid : Bytes) : Option SessionRef := m.byGUID.lookup guid

/-- `ValidateSession`; the failure is `STATUS_USER_SESSION_DELETED`. -/
def validateSession (m : SessionManager) (id : UInt64) : Option SessionRef :=
  match m.sessions.lookup id with
  | none => none
  | some r => if (m.heap r).state = .valid then some r else none

def destroySession (m : SessionManager) (id : UInt64) : SessionManager :=
  match m.sessions.lookup id with
  | none => m
  | some r =>
    { m with
      sessions := m.sessions.erase id
      byGUID := if (m.heap r).clientGUID = zeros 16 then m.byGUID
        else m.byGUID.erase (m.heap r).clientGUID }

/-- The sessions `CleanupExpired` removes. -/
def expired (m : SessionManager) (now : GoTime) : List (UInt64 × SessionRef) :=
  m.sessions.pairs.filter fun e => (m.heap e.2).lastActivity < now - m.idleLimit

/-- `CleanupExpired`; it returns the sessions of `expired`. -/
def cleanupExpired (m : SessionManager) (now : GoTime) : SessionManager :=
  (m.expired now).foldl (fun m e => m.destroySession e.1) m

/-- A write through the pointer `r`. -/
def modify (m : SessionManager) (r : SessionRef) (f : Session → Session) : SessionManager :=
  { m with heap := Function.update m.heap r (f (m.heap r)) }

/-! ## The table -/

/-- The table leads to sessions with the ID they are filed under. -/
structure WF (m : SessionManager) : Prop where
  id_eq : ∀ id r, m.sessions.lookup id = some r → (m.heap r).id = id
  lt_next : ∀ id r, m.sessions.lookup id = some r → r < m.nextRef

theorem WF.new (idleLimit : Int) : WF (newSessionManager idleLimit) := by
  constructor <;> simp [newSessionManager]

theorem validateSession_eq_some {m : SessionManager} {id : UInt64} {r : SessionRef} :
    m.validateSession id = some r ↔ m.sessions.lookup id = some r ∧ (m.heap r).state = .valid := by
  unfold validateSession
  cases h : m.sessions.lookup id with
  | none => simp
  | some r' =>
    simp only [Option.ite_none_right_eq_some, Option.some.injEq]
    constructor
    · rintro ⟨hv, rfl⟩
      exact ⟨rfl, hv⟩
    · rintro ⟨rfl, hv⟩
      exact ⟨hv, rfl⟩

variable (m : SessionManager) (now : GoTime) (id : UInt64)

theorem createSession_lookup (rand : Option UInt64) (now : GoTime) (dialect : SMBDialect)
    (clientGUID : Bytes) (clientIP : Str) (id : UInt64) :
    (m.createSession rand now dialect clientGUID clientIP).sessions.lookup id =
      if id = m.newSessionID rand then some m.nextRef else m.sessions.lookup id :=
  GoMap.lookup_insert _ _ _ _

theorem WF.createSession {m : SessionManager} (h : WF m) (rand : Option UInt64) (now : GoTime)
    (dialect : SMBDialect) (clientGUID : Bytes) (clientIP : Str) :
    WF (m.createSession rand now dialect clientGUID clientIP) := by
  constructor
  · intro id r hr
    rw [createSession_lookup] at hr
    split at hr
    · rename_i hid
      cases hr
      simp [SessionManager.createSession, Session.new, hid]
    · have : r ≠ m.nextRef := Nat.ne_of_lt (h.lt_next id r hr)
      simp only [SessionManager.createSession, Function.update_of_ne this]
      exact h.id_eq id r hr
  · intro id r hr
    rw [createSession_lookup] at hr
    split at hr
    · cases hr
      exact Nat.lt_succ_self _
    · exact Nat.lt_succ_of_lt (h.lt_next id r hr)

theorem destroySession_heap : (m.destroySession id).heap = m.heap := by
  unfold destroySession
  split <;> rfl

theorem destroySession_nextRef : (m.destroySession id).nextRef = m.nextRef := by
  unfold destroySession
  split <;> rfl

theorem destroySession_lookup (id id' : UInt64) :
    (m.destroySession id).sessions.lookup id' =
      if id' = id then none else m.sessions.lookup id' := by
  unfold destroySession
  split
  · next hn => exact GoMap.lookup_of_absent hn id'
  · exact GoMap.lookup_erase _ _ _

theorem WF.destroySession {m : SessionManager} (h : WF m) (id : UInt64) :
    WF (m.destroySession id) := by
  have hold : ∀ id' r, (m.destroySession id).sessions.lookup id' = some r →
      m.sessions.lookup id' = some r := by
    intro id' r hr
    rw [destroySession_lookup] at hr
    split at hr
    · cases hr
    · exact hr
  constructor
  · intro id' r hr
    rw [destroySession_heap]
    exact h.id_eq id' r (hold id' r hr)
  · intro id' r hr
    rw [destroySession_nextRef]
    exact h.lt_next id' r (hold id' r hr)

/-- The table after a list of sessions was removed. -/
theorem foldl_destroySession (l : List (UInt64 × SessionRef)) (m : SessionManager) :
    let m' := l.foldl (fun m e => m.destroySession e.1) m
    m'.heap = m.heap ∧ m'.nextRef = m.nextRef ∧
      ∀ id, m'.sessions.lookup id = if id ∈ l.map Prod.fst then none else m.sessions.lookup id := by
  induction l generalizing m with
  | nil => exact ⟨rfl, rfl, fun id => by simp⟩
  | cons e l ih =>
    obtain ⟨hheap, hnext, hlookup⟩ := ih (m.destroySession e.1)
    refine ⟨hheap.trans (destroySession_heap m e.1), hnext.trans (destroySession_nextRef m e.1), ?_⟩
    intro id
    rw [List.foldl_cons, hlookup, destroySession_lookup]
    simp only [List.map_cons, List.mem_cons]
    by_cases hid : id = e.1
    · simp [hid]
    · simp only [hid, if_false, false_or]

theorem cleanupExpired_heap : (m.cleanupExpired now).heap = m.heap := (foldl_destroySession _ m).1

theorem cleanupExpired_lookup :
    (m.cleanupExpired now).sessions.lookup id =
      if id ∈ (m.expired now).map Prod.fst then none else m.sessions.lookup id :=
  (foldl_destroySession _ m).2.2 id

theorem WF.cleanupExpired {m : SessionManager} (h : WF m) (now : GoTime) :
    WF (m.cleanupExpired now) :=
  foldl_invariant (fun _ e _ hm => hm.destroySession e.1) h

theorem WF.modify {m : SessionManager} (h : WF m) (r : SessionRef) {f : Session → Session}
    (hf : ∀ s, (f s).id = s.id) : WF (m.modify r f) := by
  refine ⟨?_, h.lt_next⟩
  intro id r' hr'
  by_cases hrr : r' = r
  · subst hrr
    simp only [SessionManager.modify, Function.update_self]
    rw [hf]
    exact h.id_eq id r' hr'
  · simp only [SessionManager.modify, Function.update_of_ne hrr]
    exact h.id_eq id r' hr'

end SessionManager

end Smbfs
