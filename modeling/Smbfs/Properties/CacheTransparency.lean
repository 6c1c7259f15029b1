import Smbfs.Client.Changes
import Smbfs.Client.MemShare
import Smbfs.Lib.Run

/-!
The metadata cache and the path functions. A client with cache and a client
without make the same calls on the same share; their answers are compared up
to what a directory says about its own size and time.

`Rename` invalidates the two names and the listings around them, and nothing
below the old name, so an entry there outlives the move. A `Truncate` that
fails after it wrote a part of the zeros invalidates nothing. With neither of
the two, the cache cannot be told from the share: `cache_transparent`.
-/

namespace Smbfs.Client

open Smbfs.Lib CM

/-! ## Calls and answers -/

/-- The path functions; `create` is `OpenFile` with `O_CREATE` among its flags. -/
inductive PathOp where
  | stat (name : Str)
  | readDir (name : Str)
  | mkdir (name : Str) (perm : FileMode)
  | mkdirAll (name : Str) (perm : FileMode)
  | remove (name : Str)
  | removeAll (name : Str)
  | rename (oldname newname : Str)
  | chmod (name : Str) (mode : FileMode)
  | chtimes (name : Str) (atime mtime : GoTime)
  | truncate (name : Str) (size : Int64)
  | create (name : Str) (flag : UInt32) (perm : FileMode) (h : hasBits flag oCREATE = true)

inductive Answer where
  | info (info : FileInfo)
  | entries (entries : List FileInfo)
  | done
  | failed (fault : Fault)
  deriving DecidableEq

/-- The same answer, as far as it does not depend on the size and time of a directory. -/
inductive Answer.Same : Answer → Answer → Prop
  | info {a b : FileInfo} : SameInfo a b → Same (.info a) (.info b)
  | entries {a b : List FileInfo} : SameInfos a b → Same (.entries a) (.entries b)
  | done : Same .done .done
  | failed (fault : Fault) : Same (.failed fault) (.failed fault)

namespace FileSystem

variable {S : Share} (fsys : FileSystem)

def runOp : PathOp → CM S Answer
  | .stat name => do return .info (← fsys.stat name)
  | .readDir name => do return .entries (← fsys.readDir name)
  | .mkdir name perm => do fsys.mkdir name perm; return .done
  | .mkdirAll name perm => do fsys.mkdirAll name perm; return .done
  | .remove name => do fsys.remove name; return .done
  | .removeAll name => do fsys.removeAll name; return .done
  | .rename oldname newname => do fsys.rename oldname newname; return .done
  | .chmod name mode => do fsys.chmod name mode; return .done
  | .chtimes name atime mtime => do fsys.chtimes name atime mtime; return .done
  | .truncate name size => do fsys.truncate name size; return .done
  | .create name flag perm _ => do let _ ← fsys.openFile name flag perm; return .done

/-- One call: its answer and the state after it. -/
def perform (st : State S) (op : PathOp) : Answer × State S :=
  match fsys.runOp op st with
  | .ok a st' => (a, st')
  | .error fault st' => (.failed fault, st')

def after (st : State S) (op : PathOp) : State S := (fsys.perform st op).2

/-- The answers of a sequence of calls. -/
def answers (st : State S) : List PathOp → List Answer
  | [] => []
  | op :: ops => (fsys.perform st op).1 :: answers (fsys.after st op) ops

end FileSystem

/-! ## When the cache stays fresh -/

/-- A path strictly below another, both normalised. -/
def below (path key : Str) : Bool :=
  if path = ['/'] then key ≠ ['/'] else (path ++ ['/']).isPrefixOf key

theorem below_slash {l q : Loc} (h : l.Covers q) (hne : q ≠ l) : below l.slash q.slash = true := by
  obtain ⟨rest, hrest, hslash⟩ := Loc.slash_of_covers h hne
  unfold below
  split
  · next hroot =>
    rw [hslash, if_pos (Loc.slash_eq_root.mp hroot)]
    simpa using hrest
  · next hroot =>
    rw [hslash, if_neg fun hnil => hroot (Loc.slash_eq_root.mpr hnil), List.isPrefixOf_iff_prefix]
    exact ⟨rest, by simp⟩

/-- At a `Rename` that the share carries out nothing below the old name is in the
cache, and at a `Truncate` the share takes all the zeros or nothing about the file
is there. -/
def CacheSafe {S : Share} (fsys : FileSystem) (st : State S) : PathOp → Prop
  | .rename oldname newname =>
    let path := fsys.pathNorm.normalize oldname
    (S.exec (.rename (toSMBPath path) (toSMBPath (fsys.pathNorm.normalize newname))) st.disk).1.isNone →
      ∀ key ∈ st.cache.statCache.keys ++ st.cache.dirCache.keys, below path key = false
  | .truncate name size =>
    let path := fsys.pathNorm.normalize name
    S.extendsTo st.disk (toSMBPath path) size = true ∨
      st.cache.statCache.lookup path = none ∧ st.cache.dirCache.lookup path = none ∧
        st.cache.dirCache.lookup (getParentPath path) = none
  | _ => True

instance {S : Share} (fsys : FileSystem) (st : State S) (op : PathOp) :
    Decidable (CacheSafe fsys st op) := by
  cases op <;> unfold CacheSafe <;> infer_instance

section

variable {S : Share} {fsys : FileSystem} {s t : State S}

theorem CacheSafe.nothingBelow {oldname newname : Str}
    (h : CacheSafe fsys s (.rename oldname newname)) {l l' : Loc}
    (hl : fsys.pathNorm.normalize oldname = l.slash)
    (hl' : fsys.pathNorm.normalize newname = l'.slash)
    (hok : (S.exec (.rename l.smb l'.smb) s.disk).1 = none) : NothingBelow s.cache l := by
  rw [CacheSafe, hl, hl', l.toSMBPath_slash, l'.toSMBPath_slash, hok] at h
  intro q hq hne
  have hbelow := below_slash hq hne
  have hkey : ∀ key ∈ s.cache.statCache.keys ++ s.cache.dirCache.keys, q.slash ≠ key := by
    rintro key hkey rfl
    have := h rfl q.slash hkey
    rw [hbelow] at this
    cases this
  constructor
  · exact AList.lookup_eq_none.mpr fun hin => hkey _ (List.mem_append_left _ hin) rfl
  · exact AList.lookup_eq_none.mpr fun hin => hkey _ (List.mem_append_right _ hin) rfl

theorem CacheSafe.truncates {name : Str} {size : Int64} (h : CacheSafe fsys s (.truncate name size))
    {l : Loc} (hl : fsys.pathNorm.normalize name = l.slash) :
    S.extendsTo s.disk l.smb size = true ∨ NothingAt s.cache l := by
  simp only [CacheSafe] at h
  generalize fsys.pathNorm.normalize name = path at h hl
  subst hl
  generalize hp : getParentPath l.slash = p at h
  rw [l.getParentPath_slash] at hp
  subst hp
  rwa [l.toSMBPath_slash] at h

variable (hS : TreeLike S) (hu : fsys.Unfailing)

include hS hu

/-- Every call of the two clients ends the same way, with the two in step. -/
theorem rel_runOp {κ : MetadataCache} {d : S.Disk} (hon : κ.enabled = true)
    (hf : Fresh fsys.pathNorm ∅ ∅ κ d) (hs : s.cache = κ) (hd : s.disk = d) (op : PathOp)
    (hsafe : CacheSafe fsys s op) :
    Relate (Sim κ d) (fsys.runOp op : CM S Answer) (fsys.runOp op)
      (fun a b s t => a.Same b ∧ Synced fsys.pathNorm s t) (Synced fsys.pathNorm) := by
  have hsync := synced_of_fresh hon hf
  have hdone : ∀ {m : CM S Unit}, Relate (Sim κ d) m m (fun _ _ => Synced fsys.pathNorm)
      (Synced fsys.pathNorm) → Relate (Sim κ d) (do m; return Answer.done) (do m; return .done)
        (fun a b s t => a.Same b ∧ Synced fsys.pathNorm s t) (Synced fsys.pathNorm) :=
    fun h => Relate.bind h fun _ _ => Relate.pure fun s t h => ⟨.done, h⟩
  have hstep : ∀ {m : CM S Unit}, InStep fsys m → Relate (Sim κ d) (do m; return Answer.done)
      (do m; return .done) (fun a b s t => a.Same b ∧ Synced fsys.pathNorm s t)
        (Synced fsys.pathNorm) :=
    fun h => hdone (h.pre hsync)
  subst hs hd
  cases op with
  | stat name =>
    refine Relate.bind ((rel_stat_same hS hu name).pre hsync) fun a b => Relate.pure fun s t h => ?_
    exact ⟨.info h.1, h.2⟩
  | readDir name =>
    refine Relate.bind ((rel_readDir_same hS hu name).pre hsync)
      fun a b => Relate.pure fun s t h => ?_
    exact ⟨.entries h.1, h.2⟩
  | mkdir name perm => exact hstep (rel_mkdir hS hu name perm)
  | mkdirAll name perm => exact hstep (rel_mkdirAllFrom hS hu _ name perm)
  | remove name => exact hstep (rel_remove hS hu name)
  | removeAll name => exact hstep (rel_removeAllFrom hS hu _ name)
  | rename oldname newname =>
    exact hdone (rel_rename hS hu hon hf oldname newname fun l l' => hsafe.nothingBelow)
  | chmod name mode => exact hstep (rel_chmod hS hu name mode)
  | chtimes name atime mtime => exact hstep (rel_chtimes hS hu name atime mtime)
  | truncate name size =>
    exact hdone (rel_truncate hS hu hon hf name size fun l hl => hsafe.truncates hl)
  | create name flag perm hcreate =>
    refine Relate.bind ((rel_openFile hS hu name flag perm).exits hsync)
      fun f f' => Relate.pure ?_
    rintro s t ⟨l, file, _, _, _, h⟩
    rw [if_pos hcreate] at h
    refine ⟨.done, _, _, ⟨by simpa using hon, hf.changed hon ?_⟩, h⟩
    exact hS.changes (.openFile l.smb flag perm) _ l rfl

/-- **Step lemma.** From states in step, a call gives the same answer and
leaves the states in step. -/
theorem perform_same (h : Synced fsys.pathNorm s t) (op : PathOp) (hsafe : CacheSafe fsys s op) :
    (fsys.perform s op).1.Same (fsys.perform t op).1 ∧
      Synced fsys.pathNorm (fsys.after s op) (fsys.after t op) := by
  obtain ⟨κ, d, ⟨hon, hf⟩, hsim⟩ := h
  unfold FileSystem.after FileSystem.perform
  obtain ⟨a, s', b, t', hm, hn, hab, h⟩ | ⟨e, s', t', hm, hn, h⟩ :=
    (rel_runOp hS hu hon hf hsim.cache hsim.left op hsafe).cases hsim
  · rw [hm, hn]
    exact ⟨hab, h⟩
  · rw [hm, hn]
    exact ⟨.failed e, h⟩

/-- **Run lemma.** -/
theorem answers_same (h : Synced fsys.pathNorm s t) (ops : List PathOp)
    (hsafe : Along fsys.after (CacheSafe fsys) s ops) :
    List.Forall₂ Answer.Same (fsys.answers s ops) (fsys.answers t ops) := by
  induction ops generalizing s t with
  | nil => exact .nil
  | cons op ops ih =>
    obtain ⟨hsame, hnext⟩ := perform_same hS hu h op hsafe.1
    exact .cons hsame (ih hnext hsafe.2)

/-- **The cache is transparent for the path functions**, in every run in which
no `Rename` moves a cached path away and no `Truncate` of a cached file fails
half-way. -/
theorem cache_transparent (config : CacheConfig) (hon : config.enableCache = true) (d : S.Disk)
    (ops : List PathOp) (hsafe : Along fsys.after (CacheSafe fsys) (State.new config d) ops) :
    List.Forall₂ Answer.Same (fsys.answers (State.new config d) ops)
      (fsys.answers (State.new { config with enableCache := false } d) ops) := by
  refine answers_same hS hu ?_ ops hsafe
  refine ⟨_, d, ⟨?_, .new _ _ config d⟩, rfl, MetadataCache.new_enabled _, rfl, rfl⟩
  exact (MetadataCache.new_enabled config).trans hon

end

/-! ## Two runs -/

def pathA : Str := ['/', 'a']
def pathB : Str := ['/', 'b']
def fileInA : Str := ['/', 'a', '/', 'f']
def fileInB : Str := ['/', 'b', '/', 'f']

/-- A directory with a file, moved before the file is looked at; a move into a missing
directory fails, and the file is truncated and removed. -/
def moveThenLook : List PathOp :=
  [.mkdir pathA 0o755, .create fileInA (oRDWR ||| oCREATE) 0o644 (by decide), .readDir ['/'],
    .rename pathA pathB, .stat fileInB, .rename pathB fileInA, .truncate fileInB 3, .stat fileInB,
    .stat fileInA, .removeAll pathB, .readDir ['/']]

theorem cache_transparent_move :
    List.Forall₂ Answer.Same
      (steadyClient.answers (State.new (S := memShare) cacheOn emptyTree) moveThenLook)
      (steadyClient.answers (State.new (S := memShare) { cacheOn with enableCache := false } emptyTree)
        moveThenLook) :=
  cache_transparent treeLike_memShare ⟨fun _ => rfl, fun _ => rfl⟩ cacheOn rfl emptyTree moveThenLook
    (by decide +kernel)

/-- The file is looked at before its directory is moved. -/
def lookThenMove : List PathOp :=
  [.mkdir pathA 0o755, .create fileInA (oRDWR ||| oCREATE) 0o644 (by decide), .stat fileInA,
    .rename pathA pathB, .stat fileInA]

def Answer.isFailed : Answer → Bool
  | .failed _ => true
  | _ => false

theorem map_isFailed {as bs : List Answer} (h : List.Forall₂ Answer.Same as bs) :
    as.map Answer.isFailed = bs.map Answer.isFailed := by
  induction h with
  | nil => rfl
  | cons hab _ ih => cases hab <;> simp only [List.map_cons, ih, Answer.isFailed]

/-- The client with cache finds the file under its old name. -/
theorem rename_keeps_stale_entry :
    TreeLike memShare ∧ steadyClient.Unfailing ∧ ¬ List.Forall₂ Answer.Same
      (steadyClient.answers (State.new (S := memShare) cacheOn emptyTree) lookThenMove)
      (steadyClient.answers (State.new (S := memShare) { cacheOn with enableCache := false } emptyTree)
        lookThenMove) := by
  refine ⟨treeLike_memShare, ⟨fun _ => rfl, fun _ => rfl⟩, fun h => ?_⟩
  exact absurd (map_isFailed h) (by decide +kernel)

end Smbfs.Client
