import Smbfs.System.Create
import Smbfs.System.Samples

/-!
CREATE over whole runs, on a filesystem with the POSIX laws.

* `create_follows_table`: a CREATE that succeeds adds one handle, with the action
  of the table and its effect; one that fails changes nothing;
* `create_kind_iff`: when a CREATE that succeeds respects the kind of object it asks
  for. FILE_OVERWRITE, FILE_OVERWRITE_IF and FILE_SUPERSEDE do not look at
  FILE_DIRECTORY_FILE, and a new object under both options is a directory;
* `overwriteIf_makes_file`: FILE_OVERWRITE_IF with FILE_DIRECTORY_FILE makes a file.
-/

namespace Smbfs

open Smbfs.Lib

variable {B : Backend} {F : ObjectFs B} {P : Platform} {k : ConnId} {msg : SMB2Message} {o : Oracle}

/-- The handle of `of` has been added to the share, and no other handle has changed. -/
structure AddsHandle (s s' : Server B) (sh : ShareRef) (of : B.OpenFile) : Prop where
  fresh : (s.handlesOf sh).view of.id = none
  added : (s'.handlesOf sh).view of.id = some of
  others : ∀ sh' id, ¬ (sh' = sh ∧ id = of.id) →
    (s'.handlesOf sh').view id = (s.handlesOf sh').view id

/-- What a CREATE that succeeds has done. -/
structure CreateSucceeded (F : ObjectFs B) (fs : FsRef) (sh : ShareRef) (path : Str)
    (disposition : CreateDisposition) (action : CreateAction) (f : B.File) (x : F.Obj)
    (of : B.OpenFile) (s s' : Server B) : Prop where
  action_eq : expectedAction disposition (F.look (B.content (s.disks fs)) path).isSome = some action
  handle : AddsHandle s s' sh of
  file_eq : of.file = some (fs, f)
  path_eq : of.path = path
  opens : F.Opens (s.disks fs) (s'.disks fs) f x
  effect : Effect F (s.disks fs) (s'.disks fs) path x action
  onlyAt : F.OnlyAt (B.content (s.disks fs)) (B.content (s'.disks fs)) x
  disks_eq : ∀ fs', fs' ≠ fs → s'.disks fs' = s.disks fs'

/-- What a CREATE that fails has done: nothing. -/
structure CreateFailed (F : ObjectFs B) (s s' : Server B) : Prop where
  views : ∀ sh id, (s'.handlesOf sh).view id = (s.handlesOf sh).view id
  same : ∀ fs, F.Same (s.disks fs) (s'.disks fs)

variable {action : CreateAction} {x : F.Obj}

theorem Effect.onlyAt {d d' : B.Disk} {path : Str}
    (h : Effect F d d' path x action) : F.OnlyAt (B.content d) (B.content d') x := by
  cases action with
  | opened =>
    rw [h.2]
    exact ⟨fun _ _ h => h, fun _ _ _ => Iff.rfl, fun _ _ => rfl⟩
  | overwritten | superseded => exact h.2.onlyAt
  | created =>
    obtain ⟨n, -, hadds⟩ := h
    exact hadds.onlyAt

theorem Unchanged.failed {fs : FsRef} {s s' : Server B} (h : Unchanged F fs s s') :
    CreateFailed F s s' := by
  refine ⟨fun sh id => by rw [Server.handlesOf, h.only.shareHeap_eq]; rfl, fun fs' => ?_⟩
  by_cases hfs : fs' = fs
  · rw [hfs]
    exact h.same
  · rw [h.only.disks_eq hfs]
    exact .refl _

variable {req : CreateRequest} {disposition : CreateDisposition}

/-- A CREATE that has returned has added one handle, on a map with its invariant. -/
theorem Answered.succeeded (hF : F.Posix) {fs : FsRef} {r : SessionRef} {tree : TreeConnection}
    {path : Str} {s s' : Server B} {reply : Reply} {f : B.File}
    {info : FileInfo} (hwf : (s.handlesOf tree.share).WF)
    (h : Answered F fs r tree path req o s s' reply disposition action f x info) :
    CreateSucceeded F fs tree.share path disposition action f x
      (createdFile (s.handlesOf tree.share) o req (fs, f) path info.isDir tree.id
        (s.sessions.heap r).id) s s' := by
  obtain ⟨t, hopened, -, rfl⟩ := h.opened
  have hsame : F.Same (t.disks fs) ((t.exec fs (.fileStat f)).disks fs) := by
    rw [Server.disks_exec]
    exact hF.same_exec rfl rfl _
  have hheap : (t.exec fs (.fileStat f)).shareHeap = s.shareHeap := hopened.only.shareHeap_eq
  have hhandles : ∀ sh, (t.exec fs (.fileStat f)).handlesOf sh = s.handlesOf sh := by
    intro sh
    rw [Server.handlesOf, hheap]
    rfl
  have heffect : Effect F (s.disks fs) ((t.exec fs (.fileStat f)).disks fs) path x action :=
    hopened.effect.congr (.refl _) hsame.content_eq
  refine ⟨h.action_eq, ⟨?_, ?_, ?_⟩, rfl, rfl, hopened.opens.congr rfl hsame.opened_eq, heffect,
    heffect.onlyAt, fun fs' hfs' => ?_⟩
  · exact hwf.view_fresh rfl
  · rw [Server.handlesOf_modifyHandles, if_pos rfl, hhandles, hwf.view_allocate, if_pos rfl]
  · intro sh' id hne
    rw [Server.handlesOf_modifyHandles, hhandles, hhandles]
    split
    · next hsh =>
      rw [hwf.view_allocate, if_neg fun hid => hne ⟨hsh, hid⟩, hsh]
    · rfl
  · exact (hopened.only.exec _).disks_eq hfs'

/-! ## Requests -/

section Requests

variable {sys : System B} {tree : TreeConnection} {fs : FsRef} (hF : F.Posix)
  (hwf : Tables sys.server) (hrunning : sys.crashed = false) (hcmd : msg.cmd = .create)
  (htree : treeOf sys.server msg = some tree)
  (hfs : (sys.server.shareHeap tree.share).fs = some fs)

include hF hwf hrunning hcmd htree hfs

/-- CREATE as an event: the response and the state after it. -/
theorem step_create_ok (hok : Succeeds P k msg o sys.server) :
    ∃ path disposition action f x of info resp, Asks sys.server msg tree path ∧
      CreateDisposition.ofCode msg.create.createDisposition = some disposition ∧
      (processMessage P k msg o sys.server).1 = .response resp ∧
      resp.payload = createResponse action info of.id ∧
      CreateSucceeded F fs tree.share path disposition action f x of sys.server
        (sys.step P (.message k msg o)).server ∧
      resultKind msg.create disposition
        (F.node (B.content ((sys.step P (.message k msg o)).server.disks fs)) x).isDir action := by
  obtain ⟨r, hsession, htree⟩ := Option.bind_eq_some_iff.mp htree
  obtain ⟨reply, s', hrun, -⟩ := (succeeds_create_iff hcmd).mp hok
  obtain ⟨path, disposition, action, f, x, info, hasks, hanswered⟩ :=
    (handleCreate_finishes ⟨hsession, htree⟩ hfs hF).post hrun
  obtain ⟨resp, hresp, hpayload, -⟩ := processMessage_ok (routedTo_create hcmd) hrun
  rw [step_routed hrunning (routedTo_create hcmd), hrun]
  refine ⟨path, disposition, action, f, x, _, info, resp, hasks, hanswered.code_eq,
    by rw [hresp], ?_, hanswered.succeeded hF (hwf.handles tree.share), ?_⟩
  · rw [hpayload, hanswered.reply_eq]
    rfl
  · obtain ⟨t, hopened, -, hs'⟩ := hanswered.opened
    have hcontent : B.content (s'.disks fs) = B.content (t.disks fs) := by
      rw [hs']
      exact t.content_exec fs (c := .fileStat f) rfl fs
    rw [stateOf, hcontent]
    exact hopened.kind

omit hwf in
theorem step_create_failed (hfail : ¬ Succeeds P k msg o sys.server) :
    CreateFailed F sys.server (sys.step P (.message k msg o)).server ∧
      (sys.step P (.message k msg o)).crashed = false := by
  obtain ⟨r, hsession, htree⟩ := Option.bind_eq_some_iff.mp htree
  have hspec := handleCreate_finishes (o := o) ⟨hsession, htree⟩ hfs hF
  rw [step_react hrunning, react_message, processMessage_routed (routedTo_create hcmd)]
  cases hrun : handleCreate msg o sys.server with
  | ok reply s' =>
    obtain ⟨_, _, _, _, _, _, _, hanswered⟩ := hspec.post hrun
    refine absurd ((succeeds_create_iff hcmd).mpr ⟨reply, s', hrun, ?_⟩) hfail
    rw [hanswered.reply_eq]
    rfl
  | error stop s' =>
    cases stop with
    | crash => exact absurd hrun (handleCreate_noCrash ⟨hsession, htree⟩ hfs s')
    | status st => exact ⟨(hspec.exit hrun).failed, rfl⟩

end Requests

/-- **The disposition table.** In every reachable state, for every CREATE on a tree
with a filesystem: if it is answered with STATUS_SUCCESS, the response announces the
action of the table, one handle has been added, and the filesystem shows the effect
of the action and no other. If it is not, no handle has been added, no file is left
open, and the filesystem is as it was. -/
theorem create_follows_table (hF : F.Posix) (P : Platform) (options : ServerOptions) (rand : Bytes)
    (disks : FsRef → B.Disk) (es : List Event) (k : ConnId) (msg : SMB2Message) (o : Oracle)
    {tree : TreeConnection} {fs : FsRef} :
    let sys := System.run P (.initial options rand disks) es
    let sys' := sys.step P (.message k msg o)
    sys.crashed = false → msg.cmd = .create → treeOf sys.server msg = some tree →
    (sys.server.shareHeap tree.share).fs = some fs →
    (Succeeds P k msg o sys.server →
      ∃ path disposition action f x of info resp,
        createFilename msg.payload = some path ∧
        CreateDisposition.ofCode msg.create.createDisposition = some disposition ∧
        (processMessage P k msg o sys.server).1 = .response resp ∧
        resp.payload = createResponse action info of.id ∧
        CreateSucceeded F fs tree.share path disposition action f x of sys.server sys'.server) ∧
    (¬ Succeeds P k msg o sys.server →
      CreateFailed F sys.server sys'.server ∧ sys'.crashed = false) := by
  intro sys sys' hrunning hcmd htree hfs
  have hwf : Tables sys.server := .run options rand disks es
  refine ⟨fun hok => ?_, step_create_failed hF hrunning hcmd htree hfs⟩
  obtain ⟨path, disposition, action, f, x, of, info, resp, hasks, hcode, hresp, hpayload, hdone, -⟩ :=
    step_create_ok hF hwf hrunning hcmd htree hfs hok
  exact ⟨path, disposition, action, f, x, of, info, resp, hasks.path_eq, hcode, hresp, hpayload,
    hdone⟩

/-- A new file on an empty disk. -/
theorem create_follows_table_new :
    let sys := System.run samplePlatform inodeSystem (sampleLogin false)
    let msg := createRequest 7 1 ['f'] 1 7 2 0
    ∃ sh path disposition action f x of, CreateSucceeded inodeView 0 sh path disposition action f x
      of sys.server (sys.step samplePlatform (sent msg)).server := by
  intro sys msg
  have hshare : (treeOf sys.server msg).map (fun tree => (sys.server.shareHeap tree.share).fs) =
      some (some 0) := by decide +kernel
  obtain ⟨tree, htree, hfs⟩ := Option.map_eq_some_iff.mp hshare
  obtain ⟨path, disposition, action, f, x, of, _, _, -, -, -, -, hdone⟩ :=
    (create_follows_table inodeView_posix _ _ _ _ (sampleLogin false) 0 msg sampleOracle
      (by decide +kernel) rfl htree hfs).1 (by decide +kernel)
  exact ⟨tree.share, path, disposition, action, f, x, of, hdone⟩

/-! ## Kinds -/

/-- The objects that have been made or changed. -/
def Touched (F : ObjectFs B) (c c' : B.Content) (y : F.Obj) : Prop :=
  F.node c' y ≠ F.node c y ∨ ∃ l, F.entry c' l = some y ∧ F.entry c l ≠ some y

/-- The object `x` of the new handle, and every object made or changed, is of the
kind the request asks for. -/
structure RespectsKind (F : ObjectFs B) (req : CreateRequest) (c c' : B.Content) (x : F.Obj) :
    Prop where
  dir : req.wantDir = true → ∀ y, y = x ∨ Touched F c c' y → (F.node c' y).isDir = true
  file : req.wantFile = true → ∀ y, y = x ∨ Touched F c c' y → (F.node c' y).isDir = false

/-- The dispositions that empty a file. -/
def CreateDisposition.replaces : CreateDisposition → Bool
  | overwrite | overwriteIf | supersede => true
  | «open» | create | openIf => false

theorem ObjectFs.OnlyAt.touched {c c' : B.Content} {x y : F.Obj} (h : F.OnlyAt c c' x)
    (hy : Touched F c c' y) : y = x := by
  by_contra hne
  rcases hy with hnode | ⟨l, hnew, hold⟩
  · exact hnode (h.node_eq y hne)
  · exact hold ((h.entry_eq l y hne).mp hnew)

theorem respectsKind_iff {c c' : B.Content} (h : F.OnlyAt c c' x) :
    RespectsKind F req c c' x ↔ (req.wantDir = true → (F.node c' x).isDir = true) ∧
      (req.wantFile = true → (F.node c' x).isDir = false) := by
  have hx : ∀ y, y = x ∨ Touched F c c' y → y = x := fun y hy => hy.elim id h.touched
  constructor
  · intro hk
    exact ⟨fun hwant => hk.dir hwant x (.inl rfl), fun hwant => hk.file hwant x (.inl rfl)⟩
  · rintro ⟨hdir, hfile⟩
    exact ⟨fun hwant y hy => hx y hy ▸ hdir hwant, fun hwant y hy => hx y hy ▸ hfile hwant⟩

theorem resultKind_respects_iff {isDir existed : Bool}
    (haction : expectedAction disposition existed = some action)
    (hkind : resultKind req disposition isDir action) :
    (req.wantDir = true → isDir = true) ∧ (req.wantFile = true → isDir = false) ↔
      ¬ (req.wantDir = true ∧ (req.wantFile = true ∨ disposition.replaces = true)) := by
  cases disposition <;> cases existed <;> cases haction <;>
    simp only [resultKind, CreateDisposition.replaces] at hkind ⊢ <;>
    cases isDir <;> cases hdir : req.wantDir <;> cases hfile : req.wantFile <;> simp_all

/-- **Kinds.** A CREATE that succeeds respects the kind of object it asks for exactly
unless it carries FILE_DIRECTORY_FILE and either FILE_NON_DIRECTORY_FILE or a
disposition that empties files. -/
theorem create_kind_iff (hF : F.Posix) (P : Platform) (options : ServerOptions) (rand : Bytes)
    (disks : FsRef → B.Disk) (es : List Event) (k : ConnId) (msg : SMB2Message) (o : Oracle)
    {tree : TreeConnection} {fs : FsRef} :
    let sys := System.run P (.initial options rand disks) es
    let sys' := sys.step P (.message k msg o)
    let req := msg.create
    sys.crashed = false → msg.cmd = .create → treeOf sys.server msg = some tree →
    (sys.server.shareHeap tree.share).fs = some fs → Succeeds P k msg o sys.server →
    ∃ disposition of f x, CreateDisposition.ofCode req.createDisposition = some disposition ∧
      AddsHandle sys.server sys'.server tree.share of ∧ of.file = some (fs, f) ∧
      F.opened (sys'.server.disks fs) f = some x ∧
      (RespectsKind F req (B.content (sys.server.disks fs)) (B.content (sys'.server.disks fs)) x ↔
        ¬ (req.wantDir = true ∧ (req.wantFile = true ∨ disposition.replaces = true))) := by
  intro sys sys' req hrunning hcmd htree hfs hok
  obtain ⟨path, disposition, action, f, x, of, info, resp, -, hcode, -, -, hdone, hkind⟩ :=
    step_create_ok hF (.run options rand disks es) hrunning hcmd htree hfs hok
  refine ⟨disposition, of, f, x, hcode, hdone.handle, hdone.file_eq, hdone.opens.opened_eq, ?_⟩
  rw [respectsKind_iff hdone.onlyAt]
  exact resultKind_respects_iff hdone.action_eq hkind

/-- A new directory on an empty disk. -/
theorem create_kind_directory :
    let sys := System.run samplePlatform inodeSystem (sampleLogin false)
    let msg := createRequest 7 1 ['d'] 1 7 2 1
    let sys' := sys.step samplePlatform (sent msg)
    ∃ x, RespectsKind inodeView msg.create
      (inodeFs.content (sys.server.disks 0)) (inodeFs.content (sys'.server.disks 0)) x := by
  intro sys msg sys'
  have hshare : (treeOf sys.server msg).map (fun tree => (sys.server.shareHeap tree.share).fs) =
      some (some 0) := by decide +kernel
  obtain ⟨tree, htree, hfs⟩ := Option.map_eq_some_iff.mp hshare
  obtain ⟨disposition, of, f, x, hcode, -, -, -, hiff⟩ := create_kind_iff inodeView_posix
    _ _ _ _ (sampleLogin false) 0 msg sampleOracle (by decide +kernel) rfl htree hfs
    (by decide +kernel)
  have hdisposition : CreateDisposition.ofCode
      msg.create.createDisposition = some .create := by decide +kernel
  cases hdisposition.symm.trans hcode
  exact ⟨x, hiff.mpr (by decide +kernel)⟩

/-- FILE_OVERWRITE_IF with FILE_DIRECTORY_FILE on an empty disk succeeds, and makes a
file. -/
theorem overwriteIf_makes_file :
    let sys := System.run samplePlatform inodeSystem (sampleLogin false)
    let msg := createRequest 7 1 ['d'] 1 7 5 1
    let sys' := sys.step samplePlatform (sent msg)
    msg.create.wantDir = true ∧
      Succeeds samplePlatform 0 msg sampleOracle sys.server ∧
      inodeView.look (inodeFs.content (sys.server.disks 0)) ['d'] = none ∧
      (inodeView.look (inodeFs.content (sys'.server.disks 0)) ['d']).map
        (inodeView.node (inodeFs.content (sys'.server.disks 0))) = some (.file []) ∧
      (((sys'.server.handlesOf 1).view ⟨1, 1⟩).map OpenFile.isDir) = some false := by
  decide +kernel

end Smbfs
