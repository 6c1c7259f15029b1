import Smbfs.Properties.DeleteOnClose
import Smbfs.Properties.DirCursor
import Smbfs.System.HandleSteps

/-!
The life of enumeration states. QUERY_DIRECTORY puts the FileID of the handle it
finds into `dirStates`, and nothing takes one out.

* `view_freed`: which handles CLOSE, TREE_DISCONNECT, LOGOFF and the cleanup loop
  take from the maps;
* `step_keys`: where the keys of `dirStates` come from;
* `states_owned_iff`: over a run every key is the FileID of an open handle exactly
  if no event frees the last handle with the FileID of a key;
* `closed_directory_leaks`: a directory that was listed and closed.
-/

namespace Smbfs

open Smbfs.Lib

variable {B : Backend} {P : Platform} {k : ConnId} {msg : SMB2Message} {o : Oracle}
  {s : Server B}

/-- Every key of `dirStates` is the FileID of an open handle. -/
def StatesOwned (s : Server B) : Prop :=
  ∀ id, s.dirStates.lookup id ≠ none → ∃ sh, (s.handlesOf sh).view id ≠ none

/-- The event takes the handle out of the map of `sh`. -/
def Event.frees (s : Server B) (sh : ShareRef) (of : B.OpenFile) : Event → Bool
  | .message _ msg _ => msg.frees s sh of
  | .cleanup now => s.shares.values.contains sh && (expiredIDs s now).contains of.sessionID
  | _ => false

/-- The event leaves a handle open for every key of `dirStates`. -/
def FreesNoState (sys : System B) (e : Event) : Prop :=
  sys.crashed = false → ∀ id, sys.server.dirStates.lookup id ≠ none →
    ∃ sh of, (sys.server.handlesOf sh).view id = some of ∧ e.frees sys.server sh of = false

/-! ## Released handles -/

variable {of : B.OpenFile}

section Frees

variable {sh : ShareRef} {id : FileID}

theorem inTrees_toList {session : Session} {tree : Option TreeConnection} :
    inTrees session tree.toList sh of =
      tree.any fun tree => sh = tree.share && of.inTree tree.id session.id := by
  cases tree <;> simp [inTrees]

/-- CLOSE frees the handle it names, if that belongs to its session and tree. -/
theorem frees_close_iff (hwf : Tables s) (hcmd : msg.cmd = .close)
    (hv : (s.handlesOf sh).view id = some of) :
    msg.frees s sh of = true ↔ wellFormed msg.payload 24 24 = true ∧
      id = msg.close.fileID ∧
      ∃ r tree, Target s msg r tree id of ∧ tree.share = sh := by
  have hid : of.id = id := (hwf.handles sh).view_id hv
  simp only [SMB2Message.frees, hcmd, inTrees_toList, Option.any_eq_true, OpenFile.inTree,
    Bool.and_eq_true, decide_eq_true_eq, hid]
  constructor
  · rintro ⟨r, hr, ⟨hwell, heq⟩, tree, htree, rfl, htid, hsid⟩
    exact ⟨hwell, heq, r, tree, ⟨⟨hr, htree⟩, hv, htid, hsid⟩, rfl⟩
  · rintro ⟨hwell, heq, r, tree, ht, rfl⟩
    exact ⟨r, ht.session_eq, ⟨hwell, heq⟩, tree, ht.tree_eq, rfl, ht.treeID_eq, ht.sessionID_eq⟩

theorem handleClose_view (hwf : Tables s) (hon : HandlesOnShare s) (hcmd : msg.cmd = .close) :
    ((stateOf (handleClose msg s)).handlesOf sh).view id =
      ((s.handlesOf sh).view id).filter fun of => !msg.frees s sh of := by
  rcases handleClose_cases msg s with ⟨hsame, hnone⟩ | ⟨r, tree, of, ht, hwell, hcloses⟩
  · -- a handle that is open has a file, so the request named none
    rw [hsame]
    refine (filter_eq_of_forall fun of hv => ?_).symm
    rw [Bool.not_eq_true', Bool.eq_false_iff]
    intro hfrees
    obtain ⟨hwell, rfl, r, tree, ht, -⟩ := (frees_close_iff hwf hcmd hv).mp hfrees
    obtain ⟨-, f, hf, -⟩ := hon sh _ of hv
    rw [hnone r tree of ht hwell] at hf
    cases hf
  · rw [Server.handlesOf, hcloses.shareHeap, ← Server.handlesOf, view_modifyHandles_release]
    cases hv : (s.handlesOf sh).view id with
    | none => simp
    | some of' =>
      rw [Option.filter_some]
      by_cases hnamed : sh = tree.share ∧ id = msg.close.fileID
      · obtain ⟨rfl, rfl⟩ := hnamed
        cases hv.symm.trans ht.view_eq
        have hfrees := (frees_close_iff hwf hcmd hv).mpr ⟨hwell, rfl, r, tree, ht, rfl⟩
        simp [hfrees]
      · have hkept : msg.frees s sh of' = false := by
          rw [Bool.eq_false_iff]
          intro hfrees
          obtain ⟨-, rfl, r', tree', ht', rfl⟩ := (frees_close_iff hwf hcmd hv).mp hfrees
          refine hnamed ⟨congrArg TreeConnection.share (Option.some.inj ?_), rfl⟩
          exact ht'.toAuth.treeOf_eq.symm.trans ht.toAuth.treeOf_eq
        simp [hnamed, hkept]

/-- **Releases.** A message of a releasing command keeps the handles it does not free. -/
theorem handleMessage_view (hwf : Tables s) (hon : HandlesOnShare s)
    (hrel : msg.cmd.releases = true) :
    ((handleMessage P k msg o s).2.handlesOf sh).view id =
      ((s.handlesOf sh).view id).filter fun of => !msg.frees s sh of := by
  cases hcmd : msg.cmd with
  | close =>
    rw [handleMessage_close hcmd, respond_state]
    exact handleClose_view hwf hon hcmd
  | treeDisconnect =>
    rw [handleMessage_treeDisconnect hcmd, respond_state]
    exact handleTreeDisconnect_frees hcmd
  | logoff =>
    rw [handleMessage_logoff hcmd, respond_state]
    exact handleLogoff_frees hcmd
  | _ =>
    rw [hcmd] at hrel
    cases hrel

end Frees

/-! ## Events -/

section Events

variable {sys : System B} {sh : ShareRef} {id : FileID} {e : Event}

/-- An event that releases handles keeps those it does not free. -/
theorem view_freed (hwf : Tables sys.server) (hon : HandlesOnShare sys.server)
    (hcr : sys.crashed = false) (hrel : e.releases) :
    ((sys.step P e).server.handlesOf sh).view id =
      ((sys.server.handlesOf sh).view id).filter fun of => !e.frees sys.server sh of := by
  cases e with
  | message k msg o =>
    obtain ⟨c, c', heq⟩ := step_message P k msg o hcr
    rw [heq]
    exact handleMessage_view (s := sys.server.setConn k c) (hwf.setConn k c) hon hrel
  | cleanup now =>
    rw [step_react hcr]
    exact cleanupTick_view now
  | connect | addShare | removeShare => exact hrel.elim

/-- The other events keep every handle open. -/
theorem view_kept (hwf : Tables sys.server) (hon : HandlesOnShare sys.server)
    (hrel : ¬ e.releases) (hv : (sys.server.handlesOf sh).view id ≠ none) :
    ((sys.step P e).server.handlesOf sh).view id ≠ none := by
  cases hcr : sys.crashed with
  | true =>
    rw [step_crashed hcr]
    exact hv
  | false =>
    cases e with
    | message k msg o =>
      obtain ⟨c, c', heq⟩ := step_message P k msg o hcr
      rw [heq]
      exact view_handleMessage (s := sys.server.setConn k c) (hwf.setConn k c)
        (Bool.eq_false_iff.mpr hrel) hv
    | cleanup now => exact absurd trivial hrel
    | connect | removeShare =>
      rw [step_react hcr]
      exact hv
    | addShare fs options =>
      rw [step_react hcr]
      exact (hon.view_addShare fs options sh id).symm ▸ hv

/-- Only the releasing events free handles. -/
theorem releases_of_frees (h : e.frees sys.server sh of = true) : e.releases := by
  cases e with
  | message k msg o =>
    obtain ⟨r, -, h⟩ := Option.any_eq_true _ _ |>.mp h
    revert h
    cases hcmd : msg.cmd <;> simp [Event.releases, hcmd, Command.releases]
  | cleanup now => trivial
  | connect | addShare | removeShare => cases h

/-! ## The keys -/

/-- No event takes a key out. -/
theorem keys_mono (hwf : Tables sys.server) (h : sys.server.dirStates.lookup id ≠ none) (e : Event) :
    (sys.step P e).server.dirStates.lookup id ≠ none := by
  refine step_keeps (I := fun s => s.dirStates.lookup id ≠ none) (fun _ _ _ hs => hs) ?_ ?_
    (fun _ _ hs => hs) ?_ h
  · intro k msg o c _ _ hs
    refine chain_invariant (I := fun s : Server B => s.dirStates.lookup id ≠ none)
      (handleMessage_chain (hwf.setConn k c).handles) ?_ hs
    intro t t' hc ht
    cases hc with
    | storeDirState =>
      rw [Server.storeDirState, GoMap.lookup_insert]
      split
      · exact Option.some_ne_none _
      · exact ht
    | _ => exact ht
  · intro fs options hs
    unfold Server.addShare
    split <;> exact hs
  · intro now hs
    rwa [Frame.cleanupTick calm_dirStates now]

/-- The states that QUERY_DIRECTORY stores belong to the handle it finds. -/
def KeysOf (s s' : Server B) (id : FileID) : Prop :=
  ∀ id', s'.dirStates.lookup id' ≠ none → s.dirStates.lookup id' ≠ none ∨ id' = id

theorem KeysOf.congr {s s' : Server B} (h : s'.dirStates = s.dirStates) (id : FileID) :
    KeysOf s s' id := by
  intro id' hid
  rw [h] at hid
  exact .inl hid

theorem KeysOf.insert {s s' : Server B} {d : DirEnumState}
    (h : s'.dirStates = s.dirStates.insert id d) : KeysOf s s' id := by
  intro id' hid
  rw [h, GoMap.lookup_insert] at hid
  split at hid
  · next heq => exact .inr heq
  · exact .inl hid

theorem keysOf_answerFromEntries (of : B.OpenFile) (req : QueryDirectoryRequest)
    (d : DirEnumState) : KeysOf s (stateOf (answerFromEntries P of req d s)) of.id := by
  by_cases hd : d.Inside
  · rw [run_answerFromEntries P of req hd]
    dsimp only
    split
    · exact .insert rfl
    · split <;> exact .insert rfl
  · rw [answerFromEntries_outside hd]
    exact .congr rfl _

theorem keysOf_handleQueryDirectory (hq : queriedDir s msg = some of) :
    KeysOf s (stateOf (handleQueryDirectory P msg s)) of.id := by
  rw [handleQueryDirectory_queried hq]
  dsimp only
  split
  · exact .insert rfl
  · rw [bind_run]
    rcases cachedEntries_cases of (preparedState s of msg) (s.dirStates.lookup of.id).isSome s with
      ⟨-, hrun⟩ | ⟨-, L, fs, c, -, hrun⟩ | ⟨-, err, s', hrun, -, hs'⟩
    · rw [hrun]
      exact keysOf_answerFromEntries of _ _
    · rw [hrun]
      exact keysOf_answerFromEntries (s := s.exec fs c) of _ _
    · rw [hrun]
      rcases hs' with hs' | hs'
      · exact .congr hs' _
      · exact .insert hs'

/-- **Keys.** A new key is the FileID of a handle that the event finds and leaves open. -/
theorem step_keys (hwf : Tables sys.server) (h : (sys.step P e).server.dirStates.lookup id ≠ none) :
    sys.server.dirStates.lookup id ≠ none ∨
      (¬ e.releases ∧ ∃ sh, (sys.server.handlesOf sh).view id ≠ none) := by
  cases hcr : sys.crashed with
  | true =>
    rw [step_crashed hcr] at h
    exact .inl h
  | false =>
    cases e with
    | message k msg o =>
      obtain ⟨c, c', heq⟩ := step_message P k msg o hcr
      rw [heq] at h
      replace h : (handleMessage P k msg o (sys.server.setConn k c)).2.dirStates.lookup id ≠ none := h
      by_cases hcmd : msg.cmd = .queryDirectory
      · rw [handleMessage_queryDirectory hcmd, respond_state] at h
        cases hq : queriedDir (sys.server.setConn k c) msg with
        | none =>
          obtain ⟨st, hrun⟩ := handleQueryDirectory_refused (P := P) hq
          rw [hrun] at h
          exact .inl h
        | some of =>
          refine (keysOf_handleQueryDirectory hq id h).imp_right fun hid => ⟨?_, ?_⟩
          · rw [Event.releases, hcmd]
            decide
          · obtain ⟨r, tree, ht⟩ := target_of_queriedDir hq
            rw [hid, ((hwf.setConn k c).handles tree.share).view_id ht.view_eq]
            exact ⟨tree.share, ht.view_eq ▸ Option.some_ne_none of⟩
      · rw [handleMessage_state, calm_dirStates.route_keeps (fun _ _ _ => rfl) (fun _ _ _ _ => rfl)
          (fun hyes => absurd hyes hcmd)] at h
        exact .inl h
    | cleanup now =>
      rw [step_react hcr] at h
      exact .inl (Frame.cleanupTick calm_dirStates now sys.server ▸ h)
    | connect | removeShare =>
      rw [step_react hcr] at h
      exact .inl h
    | addShare fs options =>
      rw [step_react hcr] at h
      simp only [System.react, Server.addShare] at h
      split at h <;> exact .inl h

end Events

/-! ## Runs -/

section

variable {sys : System B} {e : Event} (hwf : Tables sys.server) (hon : HandlesOnShare sys.server)
  (h : StatesOwned sys.server)

include hwf hon h

theorem StatesOwned.step (he : FreesNoState sys e) :
    StatesOwned (sys.step P e).server := by
  cases hcr : sys.crashed with
  | true =>
    rw [step_crashed hcr]
    exact h
  | false =>
    intro id hkey
    by_cases hrel : e.releases
    · have hold := (step_keys hwf hkey).resolve_right fun hnew => hnew.1 hrel
      obtain ⟨sh, of, hv, hkept⟩ := he hcr id hold
      refine ⟨sh, ?_⟩
      rw [view_freed hwf hon hcr hrel, hv, Option.filter_some, hkept]
      exact Option.some_ne_none of
    · obtain ⟨sh, hv⟩ : ∃ sh, (sys.server.handlesOf sh).view id ≠ none :=
        (step_keys hwf hkey).elim (h id) And.right
      exact ⟨sh, view_kept hwf hon hrel hv⟩

/-- An event that frees the last handle of a key leaves the key behind. -/
theorem not_statesOwned (he : ¬ FreesNoState sys e) :
    ¬ StatesOwned (sys.step P e).server := by
  intro howned
  simp only [FreesNoState, not_forall, not_exists, not_and, Bool.not_eq_false] at he
  obtain ⟨hcr, id, hkey, hfrees⟩ := he
  obtain ⟨sh, hv⟩ := h id hkey
  obtain ⟨of, hof⟩ := Option.ne_none_iff_exists'.mp hv
  have hrel : e.releases := releases_of_frees (hfrees sh of hof)
  obtain ⟨sh', hv'⟩ := howned id (keys_mono hwf hkey e)
  rw [view_freed hwf hon hcr hrel] at hv'
  cases hof' : (sys.server.handlesOf sh').view id with
  | none =>
    rw [hof'] at hv'
    exact hv' rfl
  | some of' =>
    rw [hof', Option.filter_some, hfrees sh' of' hof'] at hv'
    exact hv' rfl

end

/-- **Enumeration states.** Over a run, every key of `dirStates` is the FileID of
an open handle in every state, exactly if no event frees the last open handle
with the FileID of a key. The run allocates fewer than 2^64 handles per share. -/
theorem states_owned_iff (options : ServerOptions) (rand : Bytes) (disks : FsRef → B.Disk)
    (es : List Event) :
    Always (System.step P) (fun sys => StatesOwned sys.server) (.initial options rand disks) es ↔
      Along (System.step P) FreesNoState (.initial options rand disks) es := by
  refine always_iff_along
    (I := fun sys : System B =>
      (Tables sys.server ∧ HandlesOnShare sys.server) ∧ StatesOwned sys.server)
    ?_ (fun _ h => h.2) ?_ ⟨⟨.initial options rand disks, .initial options rand disks⟩, ?_⟩
  · rintro sys e ⟨⟨hwf, hon⟩, h⟩ he
    exact ⟨⟨hwf.step e, hon.step hwf e⟩, h.step hwf hon he⟩
  · rintro sys e ⟨⟨hwf, hon⟩, h⟩ he
    exact not_statesOwned hwf hon h he
  · intro id hkey
    exact absurd rfl hkey

/-- The directory `/` is opened, listed and closed. -/
def listedAndClosed : List Event :=
  sampleLogin false ++ [sent (createRequest 7 1 [] 1 7 1 0),
    sent (queryDirectoryRequest 7 1 ⟨1, 1⟩ ['*'] 0), sent (closeRequest 7 1 ⟨1, 1⟩)]

/-- Its entries stay in the table, and no share has a handle with the FileID. -/
theorem closed_directory_leaks :
    let sys := System.run samplePlatform sampleSystem listedAndClosed
    ((sys.server.dirStates.lookup ⟨1, 1⟩).map fun d => d.entries.map FileInfo.name) =
        some [['f']] ∧
      (∀ sh, (sys.server.handlesOf sh).view ⟨1, 1⟩ = none) ∧ ¬ StatesOwned sys.server := by
  intro sys
  have hkey : ((sys.server.dirStates.lookup ⟨1, 1⟩).map fun d => d.entries.map FileInfo.name) =
      some [['f']] := by decide +kernel
  have hnone : ∀ sh, (sys.server.handlesOf sh).view ⟨1, 1⟩ = none := by
    intro sh
    by_cases hsh : sh < 2
    · have hfew : ∀ sh < 2, ((sys.server.handlesOf sh).view ⟨1, 1⟩).isNone = true := by
        decide +kernel
      exact Option.isNone_iff_eq_none.mp (hfew sh hsh)
    · have hon : HandlesOnShare sys.server :=
        (runFrom_invariant (I := fun sys : System inodeFs => Tables sys.server ∧
          HandlesOnShare sys.server) (fun _ e h => ⟨h.1.step e, h.2.step h.1 e⟩)
          ⟨.initial _ _ _, .initial _ _ _⟩ listedAndClosed).2
      have hnext : sys.server.nextShare = 2 := by decide +kernel
      refine Option.eq_none_iff_forall_ne_some.mpr fun of hv => hsh ?_
      rw [← hnext]
      exact (hon sh _ of hv).1
  refine ⟨hkey, hnone, fun howned => ?_⟩
  have hsome : sys.server.dirStates.lookup ⟨1, 1⟩ ≠ none := by
    intro hlookup
    rw [hlookup] at hkey
    cases hkey
  obtain ⟨sh, hv⟩ := howned ⟨1, 1⟩ hsome
  exact hv (hnone sh)

end Smbfs
