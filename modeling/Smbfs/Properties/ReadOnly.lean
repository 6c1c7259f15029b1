import Smbfs.System.Handles
import Smbfs.System.Samples

/-!
Requests through read-only trees.

* `readOnly_immutable`: they leave every filesystem as it is, in runs where no
  CREATE through a read-only tree asks for deletion on close;
* `readOnly_delete_on_close`: the flag is stored unchecked, and CLOSE then
  removes the file.
-/

namespace Smbfs

open Smbfs.Lib Relation

variable {B : Backend} {P : Platform} {k : ConnId} {msg : SMB2Message} {o : Oracle}
  {s0 s s' : Server B}

/-- The request names a tree connection whose `IsReadOnly` is set. -/
def throughReadOnly (s : Server B) (msg : SMB2Message) : Bool :=
  (treeOf s msg).any fun tree => tree.isReadOnly

theorem Auth.throughReadOnly {r : SessionRef} {tree : TreeConnection} (h : Auth s msg r tree) :
    throughReadOnly s msg = tree.isReadOnly := by
  rw [Smbfs.throughReadOnly, h.treeOf_eq]
  rfl

/-- A request through a read-only tree. -/
def ReadOnlyRequest (sys : System B) : Event → Prop
  | .message _ msg _ => throughReadOnly sys.server msg = true
  | _ => False

instance (sys : System B) : (e : Event) → Decidable (ReadOnlyRequest sys e)
  | .message _ msg _ => inferInstanceAs (Decidable (throughReadOnly sys.server msg = true))
  | .connect .. | .addShare .. | .removeShare _ | .cleanup _ => inferInstanceAs (Decidable False)

/-- The message is no CREATE through a read-only tree with `FILE_DELETE_ON_CLOSE`. -/
def NoDeferredDelete (s : Server B) (msg : SMB2Message) (_ : Oracle) : Prop :=
  msg.cmd = .create → throughReadOnly s msg = true → msg.create.deleteOnClose = false

instance : Decidable (NoDeferredDelete s msg o) := by
  delta NoDeferredDelete
  infer_instance

/-! ## Handles on read-only shares -/

/-- No handle on a read-only share is marked for deletion. -/
def Unmarked (options : ShareOptions) (of : B.OpenFile) : Prop :=
  options.readOnly = true → of.deleteOnClose = false

theorem Auth.options_readOnly (h : Tables s) {r : SessionRef} {tree : TreeConnection}
    (ha : Auth s msg r tree) : (s.shareHeap tree.share).options.readOnly = tree.isReadOnly :=
  (h.tree_readOnly _ _ _ ha.tree_eq).symm

theorem unmarked_step {sys : System B} {e : Event} (h : Tables sys.server)
    (hu : AllHandles Unmarked sys.server) (hcond : System.OnMessage NoDeferredDelete sys e) :
    AllHandles Unmarked (sys.step P e).server := by
  refine hu.step h e ?_ ?_
  · rintro k msg o rfl hcr sh of ⟨r, tree, name, file, isDir, hauth, hcmd, rfl, -, -, rfl⟩ hro
    rw [hauth.options_readOnly h, ← hauth.throughReadOnly] at hro
    exact hcond hcr hcmd hro
  · rintro k msg o rfl hcr sh id old new ⟨r, tree, of, f, ht, he, rfl, rfl⟩ hold hro
    have htree := hro
    rw [ht.toAuth.options_readOnly h] at htree
    cases he with
    | lastAccess | path => exact hold hro
    | deleteOnClose _ _ hfalse => cases htree.symm.trans hfalse

/-! ## Calls -/

theorem Permitted.not_mutates (h : Tables s0) (hu : AllHandles Unmarked s0)
    (hro : throughReadOnly s0 msg = true) {fs : FsRef} {c : FsCall B.File}
    (hp : Permitted s0 msg fs c) : c.mutates = false := by
  -- the tree that the call was made for is the one the request names
  have hguard : ∀ {r tree}, Auth s0 msg r tree → (c.mutates = true → tree.isReadOnly = false) →
      c.mutates = false := by
    intro r tree ha hmut
    rw [ha.throughReadOnly] at hro
    cases hc : c.mutates with
    | false => rfl
    | true => cases hro.symm.trans (hmut hc)
  cases hp with
  | path ha _ _ _ _ _ hmut => exact hguard ha hmut
  | opened _ _ _ hmut => exact hmut
  | handle ht _ _ hmut => exact hguard ht.toAuth hmut
  | rename ht _ hfalse => exact hguard ht.toAuth fun _ => hfalse
  | closed => rfl
  | removed ht _ hdel =>
    have hopt := ht.toAuth.options_readOnly h
    rw [← ht.toAuth.throughReadOnly, hro] at hopt
    cases hdel.symm.trans (hu _ _ _ ht.view_eq hopt)

theorem handleMessage_content (h : Tables s) (hu : AllHandles Unmarked s)
    (hro : throughReadOnly s msg = true) (fs : FsRef) :
    B.content ((handleMessage P k msg o s).2.disks fs) = B.content (s.disks fs) := by
  refine chain_invariant (I := fun t => B.content (t.disks fs) = B.content (s.disks fs))
    (handleMessage_chain h.handles) (fun t t' hc ht => ?_) rfl
  cases hc with
  | call hp => exact (Server.content_exec _ _ (hp.not_mutates h hu hro) fs).trans ht
  | _ => exact ht

theorem step_content {sys : System B} {e : Event} (h : Tables sys.server)
    (hu : AllHandles Unmarked sys.server) (hreq : ReadOnlyRequest sys e) (fs : FsRef) :
    B.content ((sys.step P e).server.disks fs) = B.content (sys.server.disks fs) := by
  cases hcr : sys.crashed with
  | true => rw [step_crashed hcr]
  | false =>
    cases e with
    | message k msg o =>
      obtain ⟨c, c', heq⟩ := step_message P k msg o hcr
      rw [heq]
      exact handleMessage_content (s := sys.server.setConn k c) (h.setConn k c) hu hreq fs
    | _ => exact hreq.elim

/-! ## Runs -/

/-- **Read-only shares.** From every reachable state, every sequence of requests
through read-only trees leaves the content of every filesystem as it is, if no
CREATE through a read-only tree asked for deletion on close. -/
theorem readOnly_immutable (options : ServerOptions) (rand : Bytes) (disks : FsRef → B.Disk)
    (es reqs : List Event)
    (hcond : Along (System.step P) (System.OnMessage NoDeferredDelete)
      (.initial options rand disks) (es ++ reqs))
    (hreqs : Along (System.step P) ReadOnlyRequest
      (System.run P (.initial options rand disks) es) reqs) (fs : FsRef) :
    B.content ((System.run P (.initial options rand disks) (es ++ reqs)).server.disks fs) =
      B.content ((System.run P (.initial options rand disks) es).server.disks fs) := by
  let I : System B → Prop := fun sys => Tables sys.server ∧ AllHandles Unmarked sys.server
  have hI : ∀ sys e, I sys → sys.OnMessage NoDeferredDelete e → I (sys.step P e) :=
    fun sys e hi hc => ⟨hi.1.step e, unmarked_step hi.1 hi.2 hc⟩
  obtain ⟨hes, hrest⟩ := along_append.mp hcond
  have hreach : I (System.run P (.initial options rand disks) es) :=
    runFrom_along hI ⟨.initial options rand disks, .initial options rand disks⟩ hes
  rw [System.run, runFrom_append]
  refine (runFrom_along (I := fun sys => I sys ∧ B.content (sys.server.disks fs) =
    B.content ((System.run P (.initial options rand disks) es).server.disks fs))
    ?_ ⟨hreach, rfl⟩ (along_and hrest hreqs)).2
  rintro sys e ⟨hi, heq⟩ ⟨hc, hreq⟩
  exact ⟨hI sys e hi hc, (step_content hi.1 hi.2 hreq fs).trans heq⟩

/-- A guest opens the file `f` through a read-only tree and closes it. -/
def openedAndClosed (access options : UInt32) : List Event :=
  [sent (createRequest 7 1 ['f'] access 7 1 options), sent (closeRequest 7 1 ⟨1, 1⟩)]

theorem readOnly_open_close :
    let es := sampleLogin true ++ openedAndClosed 1 0
    Along (System.step samplePlatform) (System.OnMessage NoDeferredDelete) sampleSystem es ∧
    inodeFs.content ((System.run samplePlatform sampleSystem es).server.disks 0) =
      inodeFs.content ((guestSystem true).server.disks 0) := by
  intro es
  have hcond : Along (System.step samplePlatform) (System.OnMessage NoDeferredDelete) sampleSystem
      es := by decide +kernel
  exact ⟨hcond, readOnly_immutable _ _ _ _ _ hcond (by decide +kernel) 0⟩

/-- With `FILE_DELETE_ON_CLOSE` this removes the file. -/
theorem readOnly_delete_on_close :
    Along (System.step samplePlatform) ReadOnlyRequest (guestSystem true)
      (openedAndClosed 0x10001 0x1000) ∧
    inodeFs.content ((System.run samplePlatform (guestSystem true)
      (openedAndClosed 0x10001 0x1000)).server.disks 0) ≠
      inodeFs.content ((guestSystem true).server.disks 0) := by
  refine ⟨by decide +kernel, ?_⟩
  intro hsame
  have hname := congrArg (fun t : InodeTree => t.names.lookup [['f']]) hsame
  revert hname
  decide +kernel

end Smbfs
