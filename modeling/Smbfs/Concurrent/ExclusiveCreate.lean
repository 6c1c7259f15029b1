import Mathlib.Data.Set.Subsingleton
import Smbfs.Concurrent.Model
import Smbfs.System.Samples

/-!
Exclusive creation under interleaving. FILE_CREATE looks whether the name
exists with `Stat`, and then calls `Mkdir`, or `OpenFile` with `O_CREATE` and
without `O_EXCL`.

* `exclusive_create`: at most one of the requests that create a name wins
  while the name is not removed, if every such `OpenFile` finds it absent;
* `two_creators`: two requests between whose calls the name is made both win.
-/

namespace Smbfs

open Smbfs.Lib

variable {B : Backend} {s s' : Server B} {t t' : Stage B}

/-! ## Filesystems -/

/-- `Stat` finds the path. -/
def present (d : B.Disk) (path : Str) : Bool := (B.exec (.stat path) d).1.isOk

/-- What is asked of a POSIX-like filesystem: `Mkdir` makes a directory only
where there is nothing, and what was made or opened is there. -/
structure PosixLike (B : Backend) : Prop where
  mkdir_absent : ∀ (d : B.Disk) path perm, (B.exec (.mkdir path perm) d).1 = none →
    present d path = false
  mkdir_present : ∀ (d : B.Disk) path perm, (B.exec (.mkdir path perm) d).1 = none →
    present (B.exec (.mkdir path perm) d).2 path = true
  open_present : ∀ (d : B.Disk) path flags perm f,
    (B.exec (.openFile path flags perm) d).1 = .ok f →
    present (B.exec (.openFile path flags perm) d).2 path = true

/-! ## Creators -/

/-- The tree, the fields and the name of a CREATE request. -/
def Job.lookup (s : Server B) : Job → Option (TreeConnection × CreateRequest × Str)
  | .create msg _ => do
    let r ← s.sessions.validateSession msg.header.sessionID
    let tree ← (s.sessions.heap r).trees.lookup msg.header.treeID
    let filename ← createFilename msg.payload
    return (tree, .ofPayload msg.payload, filename)
  | .close _ => none

/-- The disposition is FILE_CREATE. -/
def CreateRequest.exclusive (req : CreateRequest) : Bool :=
  CreateDisposition.ofCode req.createDisposition = some .create

/-- A CREATE request with FILE_CREATE for the path on the filesystem `fs`. -/
def Job.Creates (s : Server B) (fs : FsRef) (path : Str) (job : Job) : Prop :=
  ∃ tree req, job.lookup s = some (tree, req, path) ∧ req.exclusive = true ∧
    (s.shareHeap tree.share).fs = some fs

/-- The request is behind the call that makes the file. -/
def Stage.pastCreation : Stage B → Bool
  | .openAgain .. | .fileStat .. | .discard .. | .allocate .. | .answered _ => true
  | _ => false

/-- The answer is STATUS_SUCCESS with the action FILE_CREATED. -/
def Stage.wonCreation : Stage B → Bool
  | .answered reply => reply.status = .success &&
    getUint32 (reply.payload.drop 4) = CreateAction.created.code
  | _ => false

/-- The requests for the path that had not created it at `p` and have won at `p'`. -/
def winners (jobs : Nat → Job) (fs : FsRef) (path : Str) (p p' : Pool (System B) (Stage B)) :
    Set Nat :=
  {n | (jobs n).Creates p.shared.server fs path ∧ (p.threads n).pastCreation = false ∧
    (p'.threads n).wonCreation = true}

/-- The step does not remove the path. -/
def KeepsPresent (fs : FsRef) (path : Str) (p : Pool (System B) (Stage B)) (n : Nat) : Prop :=
  present (p.shared.server.disks fs) path = true →
    present ((stepPool p n).shared.server.disks fs) path = true

/-- An `OpenFile` of FILE_CREATE for the path finds it absent. -/
def FindsAbsent (fs : FsRef) (path : Str) (p : Pool (System B) (Stage B)) (n : Nat) : Prop :=
  match p.threads n with
  | .openFirst x info => x.fs = fs → x.call.filename = path → x.call.req.exclusive = true →
    firstCall x.call.tree x.call.req info = .ok (.openFile oCreate 0o644 false, .created) →
    present (p.shared.server.disks fs) path = false
  | _ => True

/-! ## A request and its stage -/

/-- What a request is looked up in; no step changes it. -/
def Server.lookups (s : Server B) : SessionManager × (ShareRef → Option FsRef) :=
  (s.sessions, fun sh => (s.shareHeap sh).fs)

theorem Stage.next_lookups (t : Stage B) : Keeps Server.lookups t.next := by
  have hmodify : ∀ (s : Server B) sh f, (s.modifyHandles sh f).lookups = s.lookups := fun s sh f =>
    congrArg (Prod.mk s.sessions) (funext fun sh' => s.modifyHandles_fs sh sh' f)
  intro s
  rcases next_state t s with hw | h | ⟨x, file, action, info, rfl, h⟩ | ⟨sh, id, h⟩
  · exact next_keeps (fun _ _ _ => rfl) hw s
  · rw [h]
  · rw [h, hmodify]
  · rw [h, hmodify]

/-- The request of a CREATE stage. -/
def Stage.call : Stage B → Option CreateCall
  | .check c | .stat c _ => some c
  | .openFirst x _ | .openAgain x _ | .fileStat x _ _ | .discard x _ _ | .allocate x _ _ _ =>
    some x.call
  | _ => none

def Stage.opening : Stage B → Option Opening
  | .openFirst x _ | .openAgain x _ | .fileStat x _ _ | .discard x _ _ | .allocate x _ _ _ => some x
  | _ => none

/-- The stage is one of the request `job`. -/
structure Job.Reaches (job : Job) (s : Server B) (t : Stage B) : Prop where
  create : ∀ msg o, t = .create msg o → job = .create msg o
  call : ∀ c, t.call = some c → job.lookup s = some (c.tree, c.req, c.filename)
  opening : ∀ x, t.opening = some x → (s.shareHeap x.call.tree.share).fs = some x.fs
  closing : t.closing = true → ∃ msg, job = .close msg

theorem Job.lookup_congr {job : Job} (hs : s'.lookups = s.lookups) : job.lookup s' = job.lookup s := by
  have hsessions : s'.sessions = s.sessions := congrArg Prod.fst hs
  cases job with
  | create msg o => simp only [Job.lookup, hsessions]
  | close msg => rfl

namespace Job.Reaches

variable {job : Job}

theorem congr (h : job.Reaches s t) (hs : s'.lookups = s.lookups) : job.Reaches s' t where
  create := h.create
  call := fun c hc => (lookup_congr hs).trans (h.call c hc)
  opening := fun x hx => (congrFun (congrArg Prod.snd hs) _).trans (h.opening x hx)
  closing := h.closing

/-- The stages that say nothing about a CREATE request. -/
theorem silent (hcreate : ∀ msg o, t ≠ .create msg o) (hcall : t.call = none)
    (hopening : t.opening = none) (hclosing : t.closing = true → ∃ msg, job = .close msg) :
    job.Reaches s t where
  create := fun msg o h => absurd h (hcreate msg o)
  call := fun _ h => by cases hcall.symm.trans h
  opening := fun _ h => by cases hopening.symm.trans h
  closing := hclosing

theorem start (job : Job) (s : Server B) : job.Reaches s job.stage := by
  cases job with
  | create msg o =>
    refine ⟨fun _ _ h => ?_, fun _ h => ?_, fun _ h => ?_, fun h => ?_⟩ <;> cases h
    rfl
  | close msg => exact silent nofun rfl rfl fun _ => ⟨msg, rfl⟩

theorem ended (h : t.ended = true) : job.Reaches s t := by
  cases t with
  | answered | failed => exact silent nofun rfl rfl nofun
  | _ => cases h

theorem next (h : job.Reaches s t) (hn : Next t s t' s') : job.Reaches s t' := by
  cases hn with
  | @validated msg o _ r tree filename hr htree hname =>
    refine ⟨nofun, fun c hc => ?_, nofun, nofun⟩
    cases hc
    rw [h.create msg o rfl]
    simp [Job.lookup, hr, htree, hname]
  | checked hcheck => exact ⟨nofun, h.call, nofun, nofun⟩
  | statted hfs =>
    refine ⟨nofun, h.call, fun x hx => ?_, nofun⟩
    cases hx
    exact hfs
  | opened | retried | made | reopened | fileStatted | discarded =>
    exact ⟨nofun, h.call, h.opening, nofun⟩
  | allocated => exact ended rfl
  | closing ht ht' =>
    rcases ht' with ht' | ⟨reply, rfl⟩
    · cases t' with
      | close | postQuery | release | closeFile | remove =>
        exact silent nofun rfl rfl fun _ => h.closing ht
      | _ => cases ht'
    · exact ended rfl
  | ended ht => exact h

end Job.Reaches

/-! ## The call that creates -/

/-- FILE_CREATE starts with `Mkdir`, or with `OpenFile` and no retry. -/
theorem firstCall_exclusive {tree : TreeConnection} {req : CreateRequest}
    {info : Except GoError FileInfo} {call : FirstCall} {action : CreateAction}
    (hreq : req.exclusive = true) (h : firstCall tree req info = .ok (call, action)) :
    action = .created ∧ (call = .mkdir ∨ call = .openFile oCreate 0o644 false) := by
  have hcode : CreateDisposition.ofCode req.createDisposition = some .create := of_decide_eq_true hreq
  unfold firstCall at h
  rw [hcode] at h
  cases info with
  | ok info => cases h
  | error err =>
    dsimp only at h
    unfold createNewCall at h
    split at h
    · cases h
    · split at h <;> cases h
      · exact ⟨rfl, .inl rfl⟩
      · exact ⟨rfl, .inr rfl⟩

variable {fs : FsRef} {path : Str} {job : Job}

theorem Job.Creates.congr (h : job.Creates s fs path) (hs : s'.lookups = s.lookups) :
    job.Creates s' fs path := by
  obtain ⟨tree, req, hlookup, hreq, hfs⟩ := h
  refine ⟨tree, req, ?_, hreq, (congrFun (congrArg Prod.snd hs) tree.share).trans hfs⟩
  rw [← hlookup, Job.lookup_congr hs]

/-- The opening of a request that creates the path is one of the path. -/
theorem Job.Creates.opening {x : Opening} (h : job.Creates s fs path) (ht : job.Reaches s t)
    (hcall : t.call = some x.call) (hopening : t.opening = some x) :
    x.fs = fs ∧ x.call.filename = path ∧ x.call.req.exclusive = true := by
  obtain ⟨tree, req, hlookup, hreq, hfs⟩ := h
  cases hlookup.symm.trans (ht.call x.call hcall)
  cases hfs.symm.trans (ht.opening x hopening)
  exact ⟨rfl, rfl, hreq⟩

theorem disks_exec (s : Server B) (fs : FsRef) (c : FsCall B.File) :
    (s.exec fs c).disks fs = (B.exec c (s.disks fs)).2 := by simp [Server.exec]

/-- **The creating call.** A request that creates the path gets behind its
creating call only if the path was absent, and then it is present. -/
theorem Next.creates (hB : PosixLike B) (hn : Next t s t' s') (hjob : job.Creates s fs path)
    (ht : job.Reaches s t) (hbefore : t.pastCreation = false) (hafter : t'.pastCreation = true)
    (habsent : ∀ x info, t = .openFirst x info → x.fs = fs → x.call.filename = path →
      x.call.req.exclusive = true →
      firstCall x.call.tree x.call.req info = .ok (.openFile oCreate 0o644 false, .created) →
      present (s.disks fs) path = false) :
    present (s.disks fs) path = false ∧ present (s'.disks fs) path = true := by
  cases hn with
  | @opened x info flags perm retry action f _ hfirst hok =>
    obtain ⟨rfl, rfl, hreq⟩ := hjob.opening ht rfl rfl
    obtain ⟨rfl, hcall | hcall⟩ := firstCall_exclusive hreq hfirst
    · cases hcall
    · cases hcall
      refine ⟨habsent x info rfl rfl rfl hreq hfirst, ?_⟩
      rw [disks_exec]
      exact hB.open_present _ _ _ _ f hok
  | @retried x info flags perm action _ hfirst =>
    obtain ⟨-, -, hreq⟩ := hjob.opening ht rfl rfl
    obtain ⟨-, hcall | hcall⟩ := firstCall_exclusive hreq hfirst <;> cases hcall
  | @made x info action _ hfirst hok =>
    obtain ⟨rfl, rfl, -⟩ := hjob.opening ht rfl rfl
    refine ⟨hB.mkdir_absent _ _ _ hok, ?_⟩
    rw [disks_exec]
    exact hB.mkdir_present _ _ _ hok
  | closing hclosing _ =>
    obtain ⟨msg, rfl⟩ := ht.closing hclosing
    obtain ⟨_, _, hlookup, -, -⟩ := hjob
    cases hlookup
  | ended => cases hbefore.symm.trans hafter
  | validated | checked | statted => cases hafter
  | reopened | fileStatted | discarded | allocated => cases hbefore

/-! ## The interleaving -/

/-- Every stage is one of its request. -/
abbrev Faithful (jobs : Nat → Job) (p : Pool (System B) (Stage B)) : Prop :=
  p.Inv (fun _ => True) fun n t sys => (jobs n).Reaches sys.server t

theorem lookups_stepPool (p : Pool (System B) (Stage B)) (n : Nat) :
    (stepPool p n).shared.server.lookups = p.shared.server.lookups := by
  cases hcr : p.shared.crashed with
  | true => simp [Pool.step, Stage.advance_crashed hcr]
  | false =>
    have hserver : (stepPool p n).shared.server = _ := Stage.advance_server hcr (p.threads n)
    rw [hserver]
    exact (p.threads n).next_lookups _

theorem Faithful.step {jobs : Nat → Job} {p : Pool (System B) (Stage B)} (h : Faithful jobs p)
    (n : Nat) : Faithful jobs (stepPool p n) := by
  have hlookups := lookups_stepPool p n
  refine Pool.Inv.step h (fun _ hself => ⟨trivial, ?_⟩) fun m t _ ht => ht.congr hlookups
  refine Job.Reaches.congr ?_ hlookups
  rcases (p.threads n).advance_cases p.shared with hsame | ⟨st, hfailed⟩ | hnext
  · rw [hsame]
    exact hself
  · rw [hfailed]
    exact .ended rfl
  · exact hself.next hnext

/-- A request for the path that has not created it. -/
def Contends (jobs : Nat → Job) (fs : FsRef) (path : Str) (p : Pool (System B) (Stage B))
    (n : Nat) : Prop :=
  (jobs n).Creates p.shared.server fs path ∧ (p.threads n).pastCreation = false

/-- Since `p0`, at most one of the requests that contended then got behind its
creating call, and then the path is there. -/
structure Contest (jobs : Nat → Job) (fs : FsRef) (path : Str)
    (p0 p : Pool (System B) (Stage B)) : Prop where
  faithful : Faithful jobs p
  lookups_eq : p.shared.server.lookups = p0.shared.server.lookups
  present : ∀ n, Contends jobs fs path p0 n → (p.threads n).pastCreation = true →
    present (p.shared.server.disks fs) path = true
  unique : ∀ n m, Contends jobs fs path p0 n → Contends jobs fs path p0 m →
    (p.threads n).pastCreation = true → (p.threads m).pastCreation = true → n = m

section Contest

variable {jobs : Nat → Job} {p0 p : Pool (System B) (Stage B)} {k n : Nat}

/-- A request behind its creating call after a step was so before, or has just
found the path absent and made it. -/
theorem past_stepPool (hB : PosixLike B) (hfaithful : Faithful jobs p)
    (habsent : FindsAbsent fs path p k) (hjob : (jobs n).Creates p.shared.server fs path)
    (hafter : ((stepPool p k).threads n).pastCreation = true) :
    (p.threads n).pastCreation = true ∨ n = k ∧ present (p.shared.server.disks fs) path = false ∧
      present ((stepPool p k).shared.server.disks fs) path = true := by
  by_cases hnk : n = k
  · subst hnk
    rw [Pool.step_threads_self] at hafter
    cases hbefore : (p.threads n).pastCreation with
    | true => exact .inl rfl
    | false =>
      refine .inr ⟨rfl, ?_⟩
      rcases (p.threads n).advance_cases p.shared with hsame | ⟨st, hfailed⟩ | hnext
      · rw [hsame] at hafter
        cases hbefore.symm.trans hafter
      · rw [hfailed] at hafter
        cases hafter
      · refine hnext.creates hB hjob (hfaithful.thread n) hbefore hafter fun x info hx => ?_
        rw [FindsAbsent, hx] at habsent
        exact habsent
  · rw [Pool.step_threads_ne hnk] at hafter
    exact .inl hafter

theorem Contest.step (hB : PosixLike B) (h : Contest jobs fs path p0 p)
    (hkeeps : KeepsPresent fs path p k) (habsent : FindsAbsent fs path p k) :
    Contest jobs fs path p0 (stepPool p k) := by
  have hpast := fun n (hn : Contends jobs fs path p0 n) => past_stepPool (n := n) hB h.faithful habsent
    (hn.1.congr h.lookups_eq)
  refine ⟨h.faithful.step k, (lookups_stepPool p k).trans h.lookups_eq, fun n hn hafter => ?_,
    fun n m hn hm hafter hafter' => ?_⟩
  · rcases hpast n hn hafter with hbefore | ⟨-, -, hmade⟩
    · exact hkeeps (h.present n hn hbefore)
    · exact hmade
  · rcases hpast n hn hafter with hbefore | ⟨rfl, hnone, -⟩ <;>
      rcases hpast m hm hafter' with hbefore' | ⟨rfl, hnone', -⟩
    · exact h.unique n m hn hm hbefore hbefore'
    · cases hnone'.symm.trans (h.present n hn hbefore)
    · cases hnone.symm.trans (h.present m hm hbefore')
    · rfl

end Contest

/-- **Exclusive creation.** Let CREATE and CLOSE requests take their steps in
any order. While the path is not removed, and every `OpenFile` of FILE_CREATE
for it finds it absent, at most one of the requests that create it, and had not
done so before, is answered with STATUS_SUCCESS and FILE_CREATED. -/
theorem exclusive_create (hB : PosixLike B) (sys : System B) (jobs : Nat → Job) (fs : FsRef)
    (path : Str) (before during : List Nat)
    (hkeeps : Along stepPool (KeepsPresent fs path)
      (runFrom stepPool (startPool sys jobs) before) during)
    (habsent : Along stepPool (FindsAbsent fs path)
      (runFrom stepPool (startPool sys jobs) before) during) :
    (winners jobs fs path (runFrom stepPool (startPool sys jobs) before)
      (runFrom stepPool (startPool sys jobs) (before ++ during))).Subsingleton := by
  rw [runFrom_append]
  have hfaithful : Faithful jobs (runFrom stepPool (startPool sys jobs) before) :=
    runFrom_invariant (fun _ n h => h.step n) ⟨trivial, fun n => .start (jobs n) _⟩ before
  generalize runFrom stepPool (startPool sys jobs) before = p0 at hkeeps habsent hfaithful ⊢
  have hcontest : Contest jobs fs path p0 (runFrom stepPool p0 during) := by
    refine runFrom_along (fun _ _ h hc => h.step hB hc.1 hc.2) ?_ (along_and hkeeps habsent)
    refine ⟨hfaithful, rfl, fun n hn hpast => ?_, fun n m hn _ hpast => ?_⟩
    · cases hn.2.symm.trans hpast
    · cases hn.2.symm.trans hpast
  have hpast : ∀ t : Stage B, t.wonCreation = true → t.pastCreation = true := by
    intro t ht
    cases t <;> first | rfl | cases ht
  intro n hn m hm
  exact hcontest.unique n m ⟨hn.1, hn.2.1⟩ ⟨hm.1, hm.2.1⟩ (hpast _ hn.2.2) (hpast _ hm.2.2)

/-! ## Two requests -/

/-- The laws of a POSIX-like filesystem give these. -/
theorem PosixLike.of_posix {F : ObjectFs B} (hF : F.Posix) : PosixLike B := by
  have hpresent : ∀ d path, present d path = (F.look (B.content d) path).isSome := by
    intro d path
    unfold present
    cases hstat : (B.exec (.stat path) d).1 with
    | ok info =>
      obtain ⟨x, hx, -⟩ := hF.stat_ok d path info hstat
      rw [hx]
      rfl
    | error err =>
      rw [hF.stat_error d path err hstat]
      rfl
  constructor
  · intro d path perm h
    obtain ⟨x, hadds⟩ := hF.mkdir_ok d path perm h
    rw [hpresent, hadds.look_eq.1]
    rfl
  · intro d path perm h
    obtain ⟨x, hadds⟩ := hF.mkdir_ok d path perm h
    rw [hpresent, hadds.look_eq.2]
    rfl
  · intro d path flags perm f h
    rw [hpresent]
    cases hlook : F.look (B.content d) path with
    | none =>
      obtain ⟨-, x, -, hadds⟩ := hF.open_absent d path flags perm f hlook h
      rw [hadds.look_eq.2]
      rfl
    | some x =>
      obtain ⟨-, hcontent⟩ := hF.open_present d path flags perm x f hlook h
      split at hcontent
      · rw [hcontent.onlyAt.look_eq path x hlook]
        rfl
      · rw [hcontent, hlook]
        rfl

instance : Decidable (job.Creates s fs path) :=
  decidable_of_iff (∃ x ∈ job.lookup s, x.2.2 = path ∧ x.2.1.exclusive = true ∧
      (s.shareHeap x.1.share).fs = some fs)
    ⟨fun ⟨x, hx, hpath, hreq, hfs⟩ => ⟨x.1, x.2.1, by rw [← hpath]; exact hx, hreq, hfs⟩,
      fun ⟨tree, req, hlookup, hreq, hfs⟩ => ⟨_, hlookup, rfl, hreq, hfs⟩⟩

instance (p : Pool (System B) (Stage B)) (n : Nat) :
    Decidable (KeepsPresent fs path p n) := inferInstanceAs (Decidable (_ = true → _ = true))

instance (p : Pool (System B) (Stage B)) (n : Nat) :
    Decidable (FindsAbsent fs path p n) := by
  unfold FindsAbsent
  split <;> infer_instance

/-- Two requests that create `g`. -/
def twoCreators (_ : Nat) : Job :=
  .create (createRequest 7 1 ['g'] 3 7 2 0) sampleOracle

abbrev creatorPool : Pool (System inodeFs) (Stage inodeFs) :=
  startPool (guestSystem false) twoCreators

/-- One after the other: the second request finds the name. -/
theorem exclusive_create_in_turn :
    (winners twoCreators 0 ['g'] (runFrom stepPool creatorPool [0])
      (runFrom stepPool creatorPool ([0] ++ [0, 0, 0, 0, 0, 1, 1, 1, 1]))).Subsingleton :=
  exclusive_create (.of_posix inodeView_posix) (guestSystem false) twoCreators 0 ['g'] [0]
    [0, 0, 0, 0, 0, 1, 1, 1, 1] (by decide +kernel) (by decide +kernel)

/-- Both look whether `g` exists before either makes it. -/
theorem two_creators :
    Along stepPool (KeepsPresent 0 ['g']) creatorPool
      ([0, 0, 0, 1, 1, 1, 0, 0, 0, 1, 1, 1]) ∧
    ¬ (winners twoCreators 0 ['g'] creatorPool
      (runFrom stepPool creatorPool [0, 0, 0, 1, 1, 1, 0, 0, 0, 1, 1, 1])).Subsingleton := by
  refine ⟨by decide +kernel, fun h => ?_⟩
  have hwon : ∀ n ∈ [0, 1], (twoCreators n).Creates creatorPool.shared.server 0 ['g'] ∧
      (creatorPool.threads n).pastCreation = false ∧ ((runFrom stepPool creatorPool
        [0, 0, 0, 1, 1, 1, 0, 0, 0, 1, 1, 1]).threads n).wonCreation = true := by decide +kernel
  exact absurd (h (hwon 0 (by decide)) (hwon 1 (by decide))) (by decide)

end Smbfs
