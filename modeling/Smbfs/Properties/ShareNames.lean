import Smbfs.System.Samples
import Smbfs.System.TreeConnect

/-!
The names that shares are registered under, `server.go`, and the names that
TREE_CONNECT finds them by, `smb2_tree.go`.

`AddShare` announces a normalisation of the name that it does not make: names are
compared exactly when a share is registered, removed and looked up.

* `NamesDistinct.step`, `not_namesDistinct_step`: registered names become equal up
  to case exactly if `AddShare` adds such a name;
* `extractShareName_unc`: the share name of a UNC path;
* `share_names_iff`: when the registry keeps the case convention over a run, and
  which spellings a share is found by.
-/

namespace Smbfs

open Smbfs.Lib

variable {B : Backend} {P : Platform} {k : ConnId} {msg : SMB2Message} {o : Oracle}
  {s s' : Server B} {sys : System B} {e : Event}

/-! ## Names that are equal up to case -/

/-- No two registered names are equal up to case. -/
def NamesDistinct (P : Platform) (s : Server B) : Prop :=
  ∀ name name' : Str, s.shares.lookup name ≠ none → s.shares.lookup name' ≠ none →
    P.upper name = P.upper name' → name = name'

/-- The name that `AddShare` adds to the registry. -/
def addedName (sys : System B) : Event → Option Str
  | .addShare _ options =>
    if sys.crashed = false ∧ options.shareName ≠ [] ∧
        sys.server.shares.lookup options.shareName = none then some options.shareName
    else none
  | _ => none

/-- No registered name is equal up to case to the one that is added. -/
def AddsNewName (P : Platform) (sys : System B) (e : Event) : Prop :=
  ∀ added, addedName sys e = some added →
    ∀ name, sys.server.shares.lookup name ≠ none → P.upper name ≠ P.upper added

/-- A name that is added is registered, and the others stay. -/
theorem shares_of_addedName {added : Str} (h : addedName sys e = some added) :
    sys.server.shares.lookup added = none ∧
      (sys.step P e).server.shares = sys.server.shares.insert added sys.server.nextShare := by
  cases e with
  | addShare fs options =>
    simp only [addedName, Option.ite_none_right_eq_some, Option.some.injEq] at h
    obtain ⟨⟨hcr, hne, hfree⟩, rfl⟩ := h
    refine ⟨hfree, ?_⟩
    rw [step_react hcr, System.react, Server.addShare, if_neg]
    simp [hne, hfree]
  | connect | message | removeShare | cleanup => cases h

/-- A message leaves the registry as it is. -/
theorem shares_step_message (hwf : Tables sys.server) (k : ConnId) (msg : SMB2Message) (o : Oracle) :
    (sys.step P (.message k msg o)).server.shares = sys.server.shares := by
  cases hcr : sys.crashed with
  | true => rw [step_crashed hcr]
  | false =>
    obtain ⟨c, c', hstep⟩ := step_message P k msg o hcr
    have hsame : SameShares (sys.server.setConn k c)
        (handleMessage P k msg o (sys.server.setConn k c)).2 :=
      handleMessage_sameShares (hwf.setConn k c).handles
    rw [hstep]
    exact hsame.shares

/-- A registered name was registered before, or is the one that was added. -/
theorem registered_step (hwf : Tables sys.server) {name : Str}
    (h : (sys.step P e).server.shares.lookup name ≠ none) :
    sys.server.shares.lookup name ≠ none ∨ addedName sys e = some name := by
  cases hcr : sys.crashed with
  | true =>
    rw [step_crashed hcr] at h
    exact .inl h
  | false =>
    cases e with
    | message k msg o =>
      rw [shares_step_message hwf] at h
      exact .inl h
    | connect k addr =>
      rw [step_react hcr] at h
      exact .inl h
    | addShare fs options =>
      rw [step_react hcr] at h
      obtain ⟨sh, hsh⟩ := Option.ne_none_iff_exists'.mp h
      by_cases hold : sys.server.shares.lookup name = none
      · rcases addShare_lookup hsh with hlookup | ⟨rfl, -⟩
        · exact absurd (hlookup.symm.trans hold) (Option.some_ne_none sh)
        · refine .inr ?_
          have hne : options.shareName ≠ [] := by
            intro hempty
            simp [System.react, Server.addShare, hempty] at h
            exact h (hempty ▸ hold)
          simp [addedName, hcr, hne, hold]
      · exact .inl hold
    | removeShare removed =>
      rw [step_react hcr] at h
      obtain ⟨sh, hsh⟩ := Option.ne_none_iff_exists'.mp h
      rw [(removeShare_lookup hsh).2]
      exact .inl (Option.some_ne_none sh)
    | cleanup now =>
      rw [step_react hcr] at h
      have hsame : SameShares sys.server _ := cleanupTick_sameShares now
      rw [System.react, hsame.shares] at h
      exact .inl h

theorem NamesDistinct.step (hwf : Tables sys.server) (h : NamesDistinct P sys.server)
    (hnew : AddsNewName P sys e) : NamesDistinct P (sys.step P e).server := by
  intro name name' hname hname' hupper
  rcases registered_step hwf hname with hold | hadded
  · rcases registered_step hwf hname' with hold' | hadded'
    · exact h name name' hold hold' hupper
    · exact absurd hupper (hnew name' hadded' name hold)
  · rcases registered_step hwf hname' with hold' | hadded'
    · exact absurd hupper.symm (hnew name hadded name' hold')
    · exact Option.some.inj (hadded.symm.trans hadded')

theorem not_namesDistinct_step (h : ¬ AddsNewName P sys e) :
    ¬ NamesDistinct P (sys.step P e).server := by
  intro hdistinct
  refine h fun added hadded name hname hupper => ?_
  obtain ⟨hfree, hshares⟩ := shares_of_addedName (P := P) hadded
  have hne : name ≠ added := by
    rintro rfl
    exact hname hfree
  refine hne (hdistinct name added ?_ ?_ hupper)
  · rw [hshares, GoMap.lookup_insert, if_neg hne]
    exact hname
  · rw [hshares, GoMap.lookup_insert, if_pos rfl]
    exact Option.some_ne_none _

/-- A new server has the one share `IPC$`. -/
theorem initial_registered {options : ServerOptions} {rand : Bytes} {disks : FsRef → B.Disk}
    {name : Str} (h : (System.initial options rand disks).server.shares.lookup name ≠ none) :
    name = ipcName := by
  by_contra hne
  exact h ((GoMap.lookup_insert (∅ : GoMap Str ShareRef) ipcName name 0).trans (if_neg hne))

variable (options : ServerOptions) (rand : Bytes) (disks : FsRef → B.Disk)

theorem NamesDistinct.initial : NamesDistinct P (System.initial options rand disks).server := by
  intro name name' hname hname' _
  rw [initial_registered hname, initial_registered hname']

/-! ## Names that shares are found by -/

/-- A share is registered under one name, which is not empty. -/
structure Registry (s : Server B) : Prop where
  nonempty : ∀ name sh, s.shares.lookup name = some sh → name ≠ []
  once : ∀ name name' sh, s.shares.lookup name = some sh → s.shares.lookup name' = some sh →
    name = name'

theorem Registry.congr (h : Registry s) (hshares : s'.shares = s.shares) : Registry s' := by
  constructor
  · intro name sh
    rw [hshares]
    exact h.nonempty name sh
  · intro name name' sh
    rw [hshares]
    exact h.once name name' sh

theorem Registry.addShare (hwf : Tables s) (h : Registry s) (fs : Option FsRef)
    (options : ShareOptions) : Registry (s.addShare fs options) := by
  by_cases hfails : options.shareName = [] ∨ (s.shares.lookup options.shareName).isSome
  · rw [Server.addShare, if_pos hfails]
    exact h
  · have hname : options.shareName ≠ [] := fun hempty => hfails (.inl hempty)
    constructor
    · intro name sh hlookup
      rcases addShare_lookup hlookup with hold | ⟨rfl, -⟩
      · exact h.nonempty name sh hold
      · exact hname
    · intro name name' sh hlookup hlookup'
      rcases addShare_lookup hlookup with hold | ⟨rfl, rfl⟩
      · rcases addShare_lookup hlookup' with hold' | ⟨rfl, rfl⟩
        · exact h.once name name' sh hold hold'
        · exact absurd (hwf.share_lt name _ hold) (Nat.lt_irrefl _)
      · rcases addShare_lookup hlookup' with hold' | ⟨rfl, -⟩
        · exact absurd (hwf.share_lt name' _ hold') (Nat.lt_irrefl _)
        · rfl

theorem Registry.removeShare (h : Registry s) (removed : Str) : Registry (s.removeShare removed) := by
  constructor
  · intro name sh hlookup
    exact h.nonempty name sh (removeShare_lookup hlookup).2
  · intro name name' sh hlookup hlookup'
    exact h.once name name' sh (removeShare_lookup hlookup).2 (removeShare_lookup hlookup').2

theorem Registry.initial : Registry (System.initial options rand disks).server := by
  constructor
  · intro name sh h
    rw [initial_registered (Option.ne_none_iff_exists'.mpr ⟨sh, h⟩)]
    decide
  · intro name name' sh h h'
    rw [initial_registered (Option.ne_none_iff_exists'.mpr ⟨sh, h⟩),
      initial_registered (Option.ne_none_iff_exists'.mpr ⟨sh, h'⟩)]

theorem Registry.step (hwf : Tables sys.server) (h : Registry sys.server) (e : Event) :
    Registry (sys.step P e).server := by
  have hkeep : Tables (sys.step P e).server ∧ Registry (sys.step P e).server := by
    refine step_keeps (I := fun s => Tables s ∧ Registry s) ?_ ?_ ?_ ?_ ?_ ⟨hwf, h⟩
    · rintro s k c ⟨ht, hr⟩
      exact ⟨ht.setConn k c, hr.congr rfl⟩
    · rintro k msg o c - - ⟨ht, hr⟩
      exact ⟨ht.handleMessage, hr.congr (handleMessage_sameShares ht.handles).shares⟩
    · rintro fs options ⟨ht, hr⟩
      exact ⟨ht.addShare fs options, hr.addShare ht fs options⟩
    · rintro name - ⟨ht, hr⟩
      exact ⟨ht.removeShare name, hr.removeShare name⟩
    · rintro now ⟨ht, hr⟩
      exact ⟨ht.cleanupTick now, hr.congr (cleanupTick_sameShares now).shares⟩
  exact hkeep.2

theorem Registry.run (es : List Event) :
    Registry (System.run P (.initial options rand disks) es).server := by
  have hboth : Tables (System.run P (.initial options rand disks) es).server ∧
      Registry (System.run P (.initial options rand disks) es).server :=
    runFrom_invariant (I := fun sys : System B => Tables sys.server ∧ Registry sys.server)
      (fun _ e h => ⟨h.1.step e, h.2.step h.1 e⟩)
      ⟨.initial options rand disks, .initial options rand disks⟩ es
  exact hboth.2

/-! ## UNC paths -/

theorem not_isSeparator {c : Char} (h : isSeparator c = false) : (!isSeparator c) = true := by
  rw [h]
  rfl

/-- Leading separators and the server name, up to one separator, are skipped. -/
theorem extractShareName_append {lead server : Str} {sep : Char} (hne : server ≠ [])
    (hlead : ∀ c ∈ lead, isSeparator c = true) (hserver : ∀ c ∈ server, isSeparator c = false)
    (hsep : isSeparator sep = true) (rest : Str) :
    extractShareName (lead ++ server ++ sep :: rest) = rest.takeWhile fun c => !isSeparator c := by
  obtain ⟨c, server, rfl⟩ := List.exists_cons_of_ne_nil hne
  have hc : isSeparator c = false := hserver c List.mem_cons_self
  have hstart : (lead ++ (c :: server) ++ sep :: rest).dropWhile isSeparator =
      (c :: server) ++ sep :: rest := by
    rw [List.append_assoc, List.dropWhile_append_of_pos hlead]
    simp [hc]
  have hskip : ((c :: server) ++ sep :: rest).dropWhile (fun c => !isSeparator c) = sep :: rest := by
    rw [List.dropWhile_append_of_pos fun c hc => not_isSeparator (hserver c hc)]
    simp [hsep]
  rw [extractShareName]
  simp only [hstart, hskip]

/-- **UNC paths.** The share name is what stands between the separator behind the server name and
the next one, and what is taken as a share name never has a separator. -/
theorem extractShareName_unc {lead server share tail : Str} {sep : Char} (hne : server ≠ [])
    (hlead : ∀ c ∈ lead, isSeparator c = true) (hserver : ∀ c ∈ server, isSeparator c = false)
    (hsep : isSeparator sep = true) (hshare : ∀ c ∈ share, isSeparator c = false)
    (htail : ∀ c, tail.head? = some c → isSeparator c = true) :
    extractShareName (lead ++ server ++ [sep] ++ share ++ tail) = share ∧
      ∀ path, ∀ c ∈ extractShareName path, isSeparator c = false := by
  constructor
  · have hform : lead ++ server ++ [sep] ++ share ++ tail =
        lead ++ server ++ sep :: (share ++ tail) := by simp
    have hstop : tail.takeWhile (fun c => !isSeparator c) = [] := by
      cases tail with
      | nil => rfl
      | cons c tail => simp [htail c rfl]
    rw [hform, extractShareName_append hne hlead hserver hsep,
      List.takeWhile_append_of_pos fun c hc => not_isSeparator (hshare c hc), hstop,
      List.append_nil]
  · intro path c hc
    have htaken := List.mem_takeWhile_imp hc
    simpa using htaken

/-- `//srv\share/dir`. -/
theorem extractShareName_unc_mixed :
    extractShareName ['/', '/', 's', 'r', 'v', '\\', 's', 'h', 'a', 'r', 'e', '/', 'd', 'i', 'r'] =
      ['s', 'h', 'a', 'r', 'e'] :=
  (@extractShareName_unc ['/', '/'] ['s', 'r', 'v'] ['s', 'h', 'a', 'r', 'e'] ['/', 'd', 'i', 'r']
    '\\' (by decide) (by simp [isSeparator]) (by simp [isSeparator]) rfl (by simp [isSeparator])
    (by simp [isSeparator])).1

/-- `\\server\name`. -/
def uncPath (server name : Str) : Str := ['\\', '\\'] ++ server ++ ['\\'] ++ name

theorem extractShareName_uncPath {server : Str} (hne : server ≠ [])
    (hserver : ∀ c ∈ server, isSeparator c = false) (name : Str) :
    extractShareName (uncPath server name) = name.takeWhile fun c => !isSeparator c := by
  have hform : uncPath server name = ['\\', '\\'] ++ server ++ '\\' :: name := by simp [uncPath]
  rw [hform, extractShareName_append hne (by simp [isSeparator]) hserver rfl]

/-- A TREE_CONNECT request of the session `r` for a UNC path that ends in `name`. -/
structure AsksForShare (s : Server B) (msg : SMB2Message) (r : SessionRef) (name : Str) : Prop where
  command : msg.cmd = .treeConnect
  session_eq : s.sessions.validateSession msg.header.sessionID = some r
  well : wellFormed msg.payload 8 9 = true
  path : ∃ server : Str, server ≠ [] ∧ (∀ c ∈ server, isSeparator c = false) ∧
    treeConnectPath msg.payload = some (uncPath server name)

/-- A share is found by the name that it is registered under. -/
theorem getsTree_iff_name {r : SessionRef} {name spelled : Str} {sh : ShareRef} (hreg : Registry s)
    (hsh : s.shares.lookup name = some sh) (hadmits : s.admits r sh = true)
    (h : AsksForShare s msg r spelled) :
    GetsTree P k msg o s r sh ↔ (spelled.takeWhile fun c => !isSeparator c) = name := by
  obtain ⟨server, hne, hserver, hpath⟩ := h.path
  have hname : treeConnectShareName msg.payload = some (spelled.takeWhile fun c => !isSeparator c) := by
    rw [treeConnectShareName_eq, hpath, Option.map_some, extractShareName_uncPath hne hserver]
  rw [getsTree_iff h.command h.session_eq, and_iff_right hadmits]
  constructor
  · rintro ⟨name', hconnects⟩
    have hname' := Option.some.inj (hname.symm.trans hconnects.name_eq)
    rw [hname']
    exact hreg.once name' name sh hconnects.share_eq hsh
  · intro heq
    rw [heq] at hname
    exact ⟨name, h.session_eq, h.well, hname, hreg.nonempty name sh hsh, hsh⟩

/-- **Share names.** Over a run, no two registered names are equal up to case exactly
if every `AddShare` that adds a name finds none that is. And a TREE_CONNECT to a UNC
path, of a session that the share lets in, gets a tree of the share exactly if the
path has the name as it is registered. -/
theorem share_names_iff (options : ServerOptions) (rand : Bytes) (disks : FsRef → B.Disk)
    (es : List Event) :
    (Always (System.step P) (fun sys => NamesDistinct P sys.server) (.initial options rand disks) es ↔
      Along (System.step P) (AddsNewName P) (.initial options rand disks) es) ∧
    ∀ (s : Server B), s = (System.run P (.initial options rand disks) es).server →
      ∀ (name : Str) (sh : ShareRef), s.shares.lookup name = some sh →
      ∀ (k : ConnId) (msg : SMB2Message) (o : Oracle) (r : SessionRef) (spelled : Str),
        s.admits r sh = true → AsksForShare s msg r spelled →
        (GetsTree P k msg o s r sh ↔ (spelled.takeWhile fun c => !isSeparator c) = name) := by
  constructor
  · refine always_iff_along
      (I := fun sys : System B => Tables sys.server ∧ NamesDistinct P sys.server) ?_
      (fun _ h => h.2) ?_ ⟨.initial options rand disks, .initial options rand disks⟩
    · rintro sys e ⟨hwf, h⟩ hnew
      exact ⟨hwf.step e, h.step hwf hnew⟩
    · rintro sys e - hadds
      exact not_namesDistinct_step hadds
  · rintro s rfl name sh hsh k msg o r spelled hadmits h
    exact getsTree_iff_name (.run options rand disks es) hsh hadmits h

/-- A server with the share `D`, and a guest with session 7. -/
def dataShare : List Event :=
  [.addShare (some 0) (sampleShare ['D'] false), sent (sessionSetupRequest 0 [])]

/-- The server after these events. -/
def dataServer : Server inodeFs := (System.run samplePlatform sampleSystem dataShare).server

theorem share_names_exact_spelling :
    GetsTree samplePlatform 0 (treeConnectRequest 7 ['D']) sampleOracle dataServer 0 1 := by
  obtain ⟨-, hfound⟩ := share_names_iff (P := samplePlatform) _ _ _ dataShare
  refine (hfound dataServer rfl ['D'] 1 (by decide +kernel) 0 (treeConnectRequest 7 ['D'])
    sampleOracle 0 ['D'] (by decide +kernel) ?_).mpr (by decide)
  exact ⟨rfl, by decide +kernel, by decide +kernel, ['s'], by decide,
    List.forall_mem_singleton.mpr rfl, by decide +kernel⟩

/-- The share `D` is not found under the name `d`, and a second share is registered
under that name. -/
theorem share_name_variant :
    samplePlatform.upper ['d'] = samplePlatform.upper ['D'] ∧
      dataServer.shares.lookup ['D'] = some 1 ∧ dataServer.admits 0 1 = true ∧
      AsksForShare dataServer (treeConnectRequest 7 ['d']) 0 ['d'] ∧
      (processMessage samplePlatform 0 (treeConnectRequest 7 ['d']) sampleOracle
        dataServer).1.status = some NTStatus.badNetworkName.code ∧
      (dataServer.addShare (some 0) (sampleShare ['d'] false)).shares.lookup ['D'] = some 1 ∧
      (dataServer.addShare (some 0) (sampleShare ['d'] false)).shares.lookup ['d'] = some 2 := by
  refine ⟨by decide, by decide +kernel, by decide +kernel, ?_, by decide +kernel,
    by decide +kernel, by decide +kernel⟩
  exact ⟨rfl, by decide +kernel, by decide +kernel, ['s'], by decide,
    List.forall_mem_singleton.mpr rfl, by decide +kernel⟩

end Smbfs
