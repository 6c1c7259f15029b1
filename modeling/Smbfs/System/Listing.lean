import Smbfs.Handlers.Dir

/-!
The buffer of a QUERY_DIRECTORY response as a client reads it: a chain of
entries, each with the distance to the next one in its first four bytes and
zero in the last.

* `chain_walk`: the walk through a chain;
* `fillDirBuffer_spec`: the loop writes some of the entries it is given, the
  first ones, and a client reads their names in the same order.
-/

namespace Smbfs

/-! ## The client -/

namespace DirClass

/-- Where an entry has the length of its name. -/
def nameLengthAt : DirClass → Nat
  | directory | full | both | idBoth => 60
  | names => 8

/-- Where an entry has its name. -/
def nameAt : DirClass → Nat
  | directory => 64
  | full => 68
  | both => 94
  | names => 12
  | idBoth => 104

end DirClass

/-- The name of an entry, in UTF-16LE. -/
def entryName (c : DirClass) (entry : Bytes) : Bytes :=
  slice entry c.nameAt (getUint32 (entry.drop c.nameLengthAt)).toNat

/-- The names of at most `n` entries of a chain. -/
def entryNames (c : DirClass) : Nat → Bytes → List Bytes
  | 0, _ => []
  | n + 1, b =>
    let next := (getUint32 b).toNat
    entryName c b :: if next = 0 then [] else entryNames c n (b.drop next)

/-- The offsets that a client visits from `offset` on in at most `n` steps:
`none` if the chain leaves the buffer or does not end. -/
def chainOffsets (b : Bytes) : Nat → Nat → Option (List Nat)
  | 0, _ => none
  | n + 1, offset =>
    if offset + 4 ≤ b.length then
      let next := (getUint32 (b.drop offset)).toNat
      if next = 0 then some [offset] else (chainOffsets b n (offset + next)).map (offset :: ·)
    else none

/-- The names in a QUERY_DIRECTORY response. -/
def responseNames (c : DirClass) (payload : Bytes) : List Bytes :=
  let offset := (getUint16 (payload.drop 2)).toNat
  let length := (getUint32 (payload.drop 4)).toNat
  match messageBuffer payload offset length with
  | some b => entryNames c b.length b
  | none => []

/-! ## Entries -/

/-- The number of bytes of an entry. -/
def entrySize (c : DirClass) (info : FileInfo) : Nat :=
  c.nameAt + (encodeStringToUTF16LE info.name).length

/-- The bytes are an entry with the name, whatever comes behind them and
whatever the distance to the next entry is. -/
structure IsEntry (c : DirClass) (name : Bytes) (e : Bytes) : Prop where
  last : ∃ body, e = putUint32 0 ++ body
  name_eq : ∀ next tail, entryName c (putUint32 next ++ (e.drop 4 ++ tail)) = name

theorem putUint32_length (v : UInt32) : (putUint32 v).length = 4 := rfl

variable {c : DirClass}

theorem entryName_append {a b d name tail : Bytes} {n : UInt32}
    (ha : a.length = c.nameLengthAt) (hb : (a ++ putUint32 n ++ b).length = c.nameAt)
    (hd : d = a ++ putUint32 n ++ b ++ name ++ tail) (hn : n.toNat = name.length) :
    entryName c d = name := by
  subst hd
  have hlength : getUint32 ((a ++ putUint32 n ++ b ++ name ++ tail).drop c.nameLengthAt) = n := by
    simp only [List.append_assoc]
    rw [List.drop_left' ha, getUint32_putUint32]
  rw [entryName, hlength, slice, List.append_assoc, List.drop_left' hb, hn, List.take_left' rfl]

/-- The common form of the entries; `n` is the length of the name as the entry has it. -/
structure EntryForm (c : DirClass) (name e : Bytes) (a b : Bytes) : Prop where
  a_length : a.length + 4 = c.nameLengthAt
  b_length : b.length + c.nameLengthAt + 4 = c.nameAt
  eq : e = putUint32 0 ++ a ++ putUint32 (UInt32.ofNat name.length) ++ b ++ name

namespace EntryForm

variable {name e a b : Bytes}

theorem length_eq (h : EntryForm c name e a b) : e.length = c.nameAt + name.length := by
  have ha := h.a_length
  have hb := h.b_length
  rw [h.eq]
  simp only [List.length_append, putUint32_length]
  omega

theorem isEntry (h : EntryForm c name e a b) (hn : name.length < UInt32.size) :
    IsEntry c name e := by
  obtain ⟨ha, hb, rfl⟩ := h
  refine ⟨⟨a ++ putUint32 (UInt32.ofNat name.length) ++ b ++ name, by
    simp only [List.append_assoc]⟩, fun next tail => ?_⟩
  have hdrop : (putUint32 0 ++ a ++ putUint32 (UInt32.ofNat name.length) ++ b ++ name).drop 4 =
      a ++ putUint32 (UInt32.ofNat name.length) ++ b ++ name := by
    simp only [List.append_assoc]
    exact List.drop_left' rfl
  rw [hdrop]
  have hsplit : putUint32 next ++ (a ++ putUint32 (UInt32.ofNat name.length) ++ b ++ name ++ tail) =
      (putUint32 next ++ a) ++ putUint32 (UInt32.ofNat name.length) ++ b ++ name ++ tail := by
    simp only [List.append_assoc]
  refine entryName_append ?_ ?_ hsplit ?_
  · rw [List.length_append, putUint32_length, ← ha, Nat.add_comm]
  · simp only [List.length_append, putUint32_length]
    omega
  · rw [UInt32.toNat_ofNat']
    exact Nat.mod_eq_of_lt hn

end EntryForm

/-- The bytes of an entry of the class. -/
def entryBytes (c : DirClass) (info : FileInfo) (fileIndex : UInt32) : Bytes :=
  let name := encodeStringToUTF16LE info.name
  let base := dirEntryBase info fileIndex name.length
  match c with
  | .directory => base ++ name
  | .full => base ++ putUint32 0 ++ name
  | .both => base ++ putUint32 0 ++ [0, 0] ++ zeros 24 ++ name
  | .names => putUint32 0 ++ putUint32 fileIndex ++ putUint32 (UInt32.ofNat name.length) ++ name
  | .idBoth => base ++ putUint32 0 ++ [0, 0] ++ zeros 24 ++ putUint16 0 ++
      putUint64 fileIndex.toUInt64 ++ name

theorem formatDirEntry_eq {code : UInt8} (hc : DirClass.ofCode code = some c)
    (info : FileInfo) (fileIndex : UInt32) :
    formatDirEntry info code fileIndex = some (entryBytes c info fileIndex) := by
  unfold formatDirEntry
  rw [hc]
  cases c <;> rfl

theorem entryBytes_form (c : DirClass) (info : FileInfo) (fileIndex : UInt32) :
    ∃ a b, EntryForm c (encodeStringToUTF16LE info.name) (entryBytes c info fileIndex) a b := by
  -- what stands between the distance to the next entry and the length of the name
  let t := putUint64 (timeToFiletime info.modTime)
  let fields := putUint32 fileIndex ++ t ++ t ++ t ++ t ++
    putUint64 (if info.isDir then 0 else info.size.toUInt64) ++
    putUint64 (if info.isDir then 0 else (info.size.toUInt64 + 4095) &&& ~~~4095) ++
    putUint32 (modeToAttributes info.mode)
  cases c with
  | directory =>
    refine ⟨fields, [], rfl, rfl, ?_⟩
    simp only [entryBytes, dirEntryBase, List.append_assoc, List.nil_append, fields, t]
  | full =>
    refine ⟨fields, putUint32 0, rfl, rfl, ?_⟩
    simp only [entryBytes, dirEntryBase, List.append_assoc, fields, t]
  | both =>
    refine ⟨fields, putUint32 0 ++ [0, 0] ++ zeros 24, rfl, rfl, ?_⟩
    simp only [entryBytes, dirEntryBase, List.append_assoc, fields, t]
  | names =>
    refine ⟨putUint32 fileIndex, [], rfl, rfl, ?_⟩
    simp only [entryBytes, List.append_assoc, List.nil_append]
  | idBoth =>
    refine ⟨fields, putUint32 0 ++ [0, 0] ++ zeros 24 ++ putUint16 0 ++
      putUint64 fileIndex.toUInt64, rfl, rfl, ?_⟩
    simp only [entryBytes, dirEntryBase, List.append_assoc, fields, t]

theorem entryBytes_length (c : DirClass) (info : FileInfo) (fileIndex : UInt32) :
    (entryBytes c info fileIndex).length = entrySize c info := by
  obtain ⟨a, b, hform⟩ := entryBytes_form c info fileIndex
  exact hform.length_eq

/-- A client finds the name of an entry. -/
theorem entryBytes_isEntry {info : FileInfo} (h : entrySize c info < UInt32.size)
    (fileIndex : UInt32) :
    IsEntry c (encodeStringToUTF16LE info.name) (entryBytes c info fileIndex) := by
  obtain ⟨a, b, hform⟩ := entryBytes_form c info fileIndex
  apply hform.isEntry
  unfold entrySize at h
  omega

/-! ## The chain -/

/-- An entry with its padding. -/
def padded (e : Bytes) : Bytes := e ++ zeros (padTo8ByteBoundary e.length)

/-- A padded entry that is followed by another one. -/
def linked (e : Bytes) : Bytes :=
  putUint32 (UInt32.ofNat (padded e).length) ++ (padded e).drop 4

theorem padded_length (e : Bytes) : (padded e).length = alignTo8 e.length := by
  simp only [padded, zeros, List.length_append, List.length_replicate, padTo8ByteBoundary, alignTo8]
  omega

theorem linked_length {e : Bytes} (he : 4 ≤ e.length) : (linked e).length = (padded e).length := by
  have hle : e.length ≤ (padded e).length := by simp [padded]
  rw [linked, List.length_append, List.length_drop, putUint32_length]
  omega

theorem IsEntry.four_le {name e : Bytes} (h : IsEntry c name e) : 4 ≤ e.length := by
  obtain ⟨body, rfl⟩ := h.last
  simp [putUint32]

theorem IsEntry.four_le_padded {name e : Bytes} (h : IsEntry c name e) : 4 ≤ (padded e).length := by
  have := h.four_le
  simp only [padded, List.length_append]
  omega

/-- What is read in an entry depends neither on the distance to the next entry
nor on what comes behind it. -/
def ReadsAs {β : Type} (view : Bytes → β) (v : β) (e : Bytes) : Prop :=
  ∀ next tail, view (putUint32 next ++ (e.drop 4 ++ tail)) = v

section Parts

variable {name e : Bytes} {β : Type} {view : Bytes → β} {v : β}

/-- The last entry ends the chain. -/
theorem IsEntry.padded_eq (h : IsEntry c name e) :
    padded e = putUint32 0 ++ (e.drop 4 ++ zeros (padTo8ByteBoundary e.length)) := by
  obtain ⟨body, hbody⟩ := h.last
  have hdrop : e.drop 4 = body := by
    rw [hbody]
    exact List.drop_left' rfl
  rw [hdrop, ← List.append_assoc, ← hbody, padded]

theorem ReadsAs.padded (h : ReadsAs view v e) (he : IsEntry c name e) : view (padded e) = v := by
  rw [he.padded_eq]
  exact h 0 _

theorem ReadsAs.linked (h : ReadsAs view v e) (he : IsEntry c name e) (rest : Bytes) :
    view (linked e ++ rest) = v := by
  rw [← h (UInt32.ofNat (Smbfs.padded e).length) (zeros (padTo8ByteBoundary e.length) ++ rest),
    Smbfs.linked, Smbfs.padded, List.drop_append_of_le_length he.four_le]
  simp only [List.append_assoc]

theorem getUint32_padded (he : IsEntry c name e) : getUint32 (padded e) = 0 := by
  rw [he.padded_eq, getUint32_putUint32]

theorem getUint32_linked (hlt : (padded e).length < UInt32.size) (rest : Bytes) :
    (getUint32 (linked e ++ rest)).toNat = (padded e).length := by
  rw [linked, List.append_assoc, getUint32_putUint32, UInt32.toNat_ofNat']
  exact Nat.mod_eq_of_lt hlt

end Parts

/-- Named entries that are each followed by another one. -/
def links (es : List (Bytes × Bytes)) : Bytes := es.flatMap fun e => linked e.2

theorem links_cons (e : Bytes × Bytes) (es : List (Bytes × Bytes)) :
    links (e :: es) = linked e.2 ++ links es := rfl

/-- The walk through a chain that stands behind other bytes. -/
theorem chain_walk {β : Type} {view : Bytes → β} {v : Bytes × Bytes → β}
    {init : List (Bytes × Bytes)} {last : Bytes × Bytes} {n : Nat} (front : Bytes)
    (hinit : ∀ e ∈ init, IsEntry c e.1 e.2) (hlast : IsEntry c last.1 last.2)
    (hsize : ∀ e ∈ init, (padded e.2).length < UInt32.size) (hn : init.length < n)
    (hview : ∀ e ∈ init ++ [last], ReadsAs view (v e) e.2) :
    ∃ offsets, chainOffsets (front ++ (links init ++ padded last.2)) n front.length = some offsets ∧
      (8 ∣ front.length → ∀ offset ∈ offsets, 8 ∣ offset) ∧
      offsets.map (fun offset => view ((front ++ (links init ++ padded last.2)).drop offset)) =
        (init ++ [last]).map v := by
  induction init generalizing n front with
  | nil =>
    obtain ⟨n, rfl⟩ := Nat.exists_eq_succ_of_ne_zero (Nat.ne_of_gt hn)
    have hdrop : (front ++ padded last.2).drop front.length = padded last.2 := List.drop_left' rfl
    have hroom : front.length + 4 ≤ (front ++ padded last.2).length := by
      rw [List.length_append]
      exact Nat.add_le_add_left hlast.four_le_padded _
    have hread : view (padded last.2) = v last := (hview last (by simp)).padded hlast
    refine ⟨[front.length], ?_, ?_, ?_⟩
    · show chainOffsets (front ++ padded last.2) (n + 1) front.length = _
      rw [chainOffsets, if_pos hroom, hdrop, getUint32_padded hlast]
      rfl
    · intro hdvd offset hoffset
      cases List.mem_singleton.mp hoffset
      exact hdvd
    · show [view ((front ++ padded last.2).drop front.length)] = [v last]
      rw [hdrop, hread]
  | cons e init ih =>
    obtain ⟨n, rfl⟩ := Nat.exists_eq_succ_of_ne_zero (Nat.ne_of_gt (Nat.zero_lt_of_lt hn))
    have he := hinit e List.mem_cons_self
    have hpos := he.four_le_padded
    -- the rest of the chain stands behind this entry
    obtain ⟨offsets, hwalk, haligned, hread⟩ := ih (n := n) (front ++ linked e.2)
      (fun x hx => hinit x (List.mem_cons_of_mem _ hx))
      (fun x hx => hsize x (List.mem_cons_of_mem _ hx)) (Nat.lt_of_succ_lt_succ hn)
      (fun x hx => hview x (List.mem_cons_of_mem _ hx))
    have hbuffer : front ++ linked e.2 ++ (links init ++ padded last.2) =
        front ++ (links (e :: init) ++ padded last.2) := by
      rw [links_cons, List.append_assoc, List.append_assoc]
    have hlength : (front ++ linked e.2).length = front.length + (padded e.2).length := by
      rw [List.length_append, linked_length he.four_le]
    have hdrop : (front ++ (links (e :: init) ++ padded last.2)).drop front.length =
        linked e.2 ++ (links init ++ padded last.2) := by
      rw [List.drop_left' rfl, links_cons, List.append_assoc]
    have hroom : front.length + 4 ≤ (front ++ (links (e :: init) ++ padded last.2)).length := by
      rw [← hbuffer, List.length_append, hlength]
      omega
    rw [hbuffer, hlength] at hwalk
    rw [hlength] at haligned
    rw [hbuffer] at hread
    refine ⟨front.length :: offsets, ?_, ?_, ?_⟩
    · rw [chainOffsets, if_pos hroom, hdrop]
      simp only [getUint32_linked (hsize e List.mem_cons_self)]
      rw [if_neg (by omega), hwalk]
      rfl
    · intro hdvd offset hoffset
      have hpad : 8 ∣ (padded e.2).length := by
        rw [padded_length]
        exact Nat.dvd_mul_left 8 _
      rcases List.mem_cons.mp hoffset with rfl | hoffset
      · exact hdvd
      · exact haligned (Nat.dvd_add hdvd hpad) offset hoffset
    · rw [List.map_cons, hread, hdrop, (hview e List.mem_cons_self).linked he]
      rfl

/-- The names are read on this walk. -/
theorem entryNames_of_walk {b : Bytes} {n offset : Nat} {offsets : List Nat}
    (h : chainOffsets b n offset = some offsets) :
    entryNames c n (b.drop offset) = offsets.map fun i => entryName c (b.drop i) := by
  induction n generalizing offset offsets with
  | zero => cases h
  | succ n ih =>
    rw [chainOffsets] at h
    dsimp only at h
    split at h
    · split at h
      · next hlast =>
        cases h
        simp only [entryNames, hlast, if_true, List.map_cons, List.map_nil]
      · next hnext =>
        obtain ⟨rest, hrest, rfl⟩ := Option.map_eq_some_iff.mp h
        simp only [entryNames, hnext, if_false, List.drop_drop, ih hrest, List.map_cons]
    · cases h

/-! ## The loop -/

namespace DirBuffer

/-- The buffer is the chain of the named entries. -/
structure Holds (c : DirClass) (w : DirBuffer) (init : List (Bytes × Bytes)) (last : Bytes × Bytes) :
    Prop where
  data_eq : w.data = links init ++ padded last.2
  start_eq : w.lastStart = (links init).length
  count_eq : w.count = init.length + 1
  init_entries : ∀ e ∈ init, IsEntry c e.1 e.2
  last_entry : IsEntry c last.1 last.2

variable {w : DirBuffer} {init : List (Bytes × Bytes)} {last e : Bytes × Bytes}

theorem dvd_links_length (h : ∀ e ∈ init, IsEntry c e.1 e.2) : 8 ∣ (links init).length := by
  induction init with
  | nil => exact Nat.dvd_zero 8
  | cons e init ih =>
    rw [links, List.flatMap_cons, List.length_append,
      linked_length (h e List.mem_cons_self).four_le, padded_length]
    exact Nat.dvd_add (Nat.dvd_mul_left 8 _) (ih fun x hx => h x (List.mem_cons_of_mem _ hx))

theorem links_length_bounds (h : ∀ e ∈ init, IsEntry c e.1 e.2) :
    init.length ≤ (links init).length ∧ ∀ e ∈ init, (padded e.2).length ≤ (links init).length := by
  induction init with
  | nil => exact ⟨Nat.le_refl 0, fun _ h => nomatch h⟩
  | cons e init ih =>
    obtain ⟨hcount, hpart⟩ := ih fun x hx => h x (List.mem_cons_of_mem _ hx)
    have hfour := (h e List.mem_cons_self).four_le
    have hpad : e.2.length ≤ (padded e.2).length := by simp [padded]
    have hlen : (links (e :: init)).length = (padded e.2).length + (links init).length := by
      rw [links, List.flatMap_cons, List.length_append, linked_length hfour]
      rfl
    rw [hlen]
    refine ⟨by rw [List.length_cons]; omega, fun x hx => ?_⟩
    rcases List.mem_cons.mp hx with rfl | hx
    · omega
    · have := hpart x hx
      omega

theorem holds_push_empty (he : IsEntry c e.1 e.2) : Holds c (empty.push e.2) [] e := by
  refine ⟨?_, rfl, rfl, fun _ h => (nomatch h), he⟩
  simp [push, empty, padded, links]

section

variable (h : Holds c w init last)

include h

theorem Holds.entries : ∀ e ∈ init ++ [last], IsEntry c e.1 e.2 :=
  List.forall_mem_append.mpr ⟨h.init_entries, List.forall_mem_singleton.mpr h.last_entry⟩

/-- An entry behind the chain. -/
theorem Holds.push (he : IsEntry c e.1 e.2) : Holds c (w.push e.2) (init ++ [last]) e := by
  have hlinked : links (init ++ [last]) = links init ++ linked last.2 := by simp [links]
  have hlen : w.data.length = w.lastStart + (padded last.2).length := by
    rw [h.data_eq, h.start_eq, List.length_append]
  have hfour := h.last_entry.four_le_padded
  -- the distance is written over the first bytes of what was the last entry
  have hset : setUint32At w.data w.lastStart (UInt32.ofNat (w.data.length - w.lastStart)) =
      links init ++ linked last.2 := by
    rw [setUint32At, if_pos (by omega), show w.data.length - w.lastStart = (padded last.2).length by
      omega, h.data_eq, h.start_eq, List.take_left' rfl, ← List.drop_drop, List.drop_left' rfl,
      List.append_assoc, linked]
  have hdvd : 8 ∣ (links init ++ linked last.2).length := by
    rw [← hlinked]
    exact dvd_links_length h.entries
  have hpad : padTo8ByteBoundary
      ((links init ++ linked last.2) ++ e.2).length =
      padTo8ByteBoundary e.2.length := by
    rw [List.length_append, padTo8ByteBoundary, padTo8ByteBoundary]
    omega
  have hcount : w.count > 0 := by
    rw [h.count_eq]
    exact Nat.succ_pos _
  refine ⟨?_, ?_, ?_, h.entries, he⟩
  · simp only [DirBuffer.push, hcount, if_true, hset, hpad, hlinked, padded]
    rw [List.append_assoc]
  · simp only [DirBuffer.push, hlinked, List.length_append, linked_length h.last_entry.four_le]
    rw [hlen, h.start_eq]
  · simp [DirBuffer.push, h.count_eq]

theorem Holds.length_push (he : IsEntry c e.1 e.2) :
    (w.push e.2).data.length = w.data.length + alignTo8 e.2.length := by
  have hlinks : (links (init ++ [last])).length = w.data.length := by
    rw [h.data_eq, links, List.flatMap_append, List.length_append, List.length_append]
    simp only [List.flatMap_cons, List.flatMap_nil, List.append_nil,
      linked_length h.last_entry.four_le]
    rfl
  rw [(h.push he).data_eq, List.length_append, hlinks, padded_length]

/-- The chain has fewer entries than bytes, and the distances are numbers of 32 bits. -/
theorem Holds.bounds (hlen : w.data.length < UInt32.size) :
    init.length < w.data.length ∧ ∀ e ∈ init, (padded e.2).length < UInt32.size := by
  obtain ⟨hcount, hpart⟩ := links_length_bounds h.init_entries
  have htotal : w.data.length = (links init).length + (padded last.2).length := by
    rw [h.data_eq, List.length_append]
  have hlast := h.last_entry.four_le_padded
  constructor
  · omega
  · intro e he
    have := hpart e he
    omega

/-- A client reads the names of the entries. -/
theorem Holds.entryNames (hlen : w.data.length < UInt32.size) :
    entryNames c w.data.length w.data = init.map Prod.fst ++ [last.1] := by
  obtain ⟨hcount, hsize⟩ := h.bounds hlen
  obtain ⟨offsets, hwalk, -, hread⟩ := chain_walk (v := Prod.fst) [] h.init_entries h.last_entry
    hsize hcount fun e he => (h.entries e he).name_eq
  rw [List.nil_append, ← h.data_eq] at hwalk hread
  rw [← List.map_singleton, ← List.map_append, ← hread, ← entryNames_of_walk hwalk]
  rfl

end

end DirBuffer

/-! ### A batch -/

/-- The entries of a batch, with their names, from the `j`-th on. `position` is
the cursor before the batch. -/
def emitted (c : DirClass) (position : Nat) : Nat → List FileInfo → List (Bytes × Bytes)
  | _, [] => []
  | j, info :: infos =>
    (encodeStringToUTF16LE info.name, entryBytes c info (UInt32.ofNat (position + j + j))) ::
      emitted c position (j + 1) infos

/-- The number of entries that are written behind `used` bytes. -/
def batchSize (c : DirClass) (req : QueryDirectoryRequest) : Nat → List FileInfo → Nat
  | _, [] => 0
  | used, info :: infos =>
    if used + alignTo8 (entrySize c info) > req.outputBufferLength.toNat then 0
    else if req.returnSingleEntry then 1
    else batchSize c req (used + alignTo8 (entrySize c info)) infos + 1

theorem map_fst_emitted (c : DirClass) (position j : Nat) (infos : List FileInfo) :
    (emitted c position j infos).map Prod.fst =
      infos.map fun info => encodeStringToUTF16LE info.name := by
  induction infos generalizing j with
  | nil => rfl
  | cons info infos ih => rw [emitted, List.map_cons, List.map_cons, ih]

theorem length_emitted (c : DirClass) (position j : Nat) (infos : List FileInfo) :
    (emitted c position j infos).length = infos.length := by
  have := congrArg List.length (map_fst_emitted c position j infos)
  rwa [List.length_map, List.length_map] at this

theorem batchSize_le (c : DirClass) (req : QueryDirectoryRequest) (used : Nat)
    (infos : List FileInfo) : batchSize c req used infos ≤ infos.length := by
  induction infos generalizing used with
  | nil => exact Nat.le_refl 0
  | cons info infos ih =>
    have hrest := ih (used + alignTo8 (entrySize c info))
    rw [batchSize, List.length_cons]
    split
    · exact Nat.zero_le _
    · split <;> omega

variable {req : QueryDirectoryRequest}

theorem batchSize_pos {info : FileInfo}
    {infos : List FileInfo} (hfit : alignTo8 (entrySize c info) ≤ req.outputBufferLength.toNat) :
    0 < batchSize c req 0 (info :: infos) := by
  rw [batchSize, if_neg (by omega)]
  split <;> omega

/-- An entry that fits is one whose name has a length of 32 bits. -/
theorem entrySize_lt {info : FileInfo} {n : Nat}
    (hfit : ¬ n + alignTo8 (entrySize c info) > req.outputBufferLength.toNat) :
    entrySize c info < UInt32.size := by
  have hlt : req.outputBufferLength.toNat < UInt32.size := req.outputBufferLength.toNat_lt
  unfold alignTo8 at hfit
  omega

theorem entrySize_lt_of_mem {used : Nat} {info : FileInfo} {infos : List FileInfo}
    (h : info ∈ infos.take (batchSize c req used infos)) : entrySize c info < UInt32.size := by
  induction infos generalizing used with
  | nil => simp at h
  | cons first infos ih =>
    rw [batchSize] at h
    split at h
    · simp at h
    · next hfit =>
      split at h
      · cases List.mem_singleton.mp h
        exact entrySize_lt hfit
      · rcases List.mem_cons.mp h with rfl | h
        · exact entrySize_lt hfit
        · exact ih h

/-- The loop behind entries that are already written. -/
theorem fillDirBuffer_holds
    (hc : DirClass.ofCode req.infoClass = some c) (position : Nat) (entries : List FileInfo)
    {w : DirBuffer} {init : List (Bytes × Bytes)} {last : Bytes × Bytes} (hw : w.Holds c init last)
    (hlen : w.data.length ≤ req.outputBufferLength.toNat) :
    ∃ w' init' last', fillDirBuffer req position entries w = (none, w') ∧
      w'.Holds c init' last' ∧ w'.data.length ≤ req.outputBufferLength.toNat ∧
      init' ++ [last'] = init ++ [last] ++ emitted c position w.count
        (entries.take (batchSize c req w.data.length entries)) := by
  induction entries generalizing w init last with
  | nil => exact ⟨w, init, last, rfl, hw, hlen, by simp [emitted]⟩
  | cons entry entries ih =>
    have hcount : w.count ≠ 0 := by
      rw [hw.count_eq]
      exact Nat.succ_ne_zero _
    rw [fillDirBuffer, batchSize]
    simp only [formatDirEntry_eq hc, entryBytes_length, hcount, if_false]
    by_cases hfit : w.data.length + alignTo8 (entrySize c entry) > req.outputBufferLength.toNat
    · rw [if_pos hfit, if_pos hfit]
      exact ⟨w, init, last, rfl, hw, hlen, by simp [emitted]⟩
    · rw [if_neg hfit, if_neg hfit]
      set e := entryBytes c entry (UInt32.ofNat (position + w.count + w.count)) with he
      have hentry : IsEntry c (encodeStringToUTF16LE entry.name) e :=
        entryBytes_isEntry (entrySize_lt hfit) _
      have hpush := hw.push (e := (encodeStringToUTF16LE entry.name, e)) hentry
      have hlen' := hw.length_push (e := (encodeStringToUTF16LE entry.name, e)) hentry
      dsimp only at hpush hlen'
      rw [he, entryBytes_length, ← he] at hlen'
      by_cases hsingle : req.returnSingleEntry = true
      · rw [if_pos hsingle, if_pos hsingle]
        exact ⟨_, _, _, rfl, hpush, by omega, by simp [emitted, he]⟩
      · rw [if_neg hsingle, if_neg hsingle]
        obtain ⟨w', init', last', hfill, hw', hlen'', hemitted⟩ := ih hpush (by omega)
        refine ⟨w', init', last', hfill, hw', hlen'', ?_⟩
        rw [hemitted, hlen', List.take_succ_cons, emitted, ← he, List.append_assoc (init ++ [last])]
        rfl

/-- **The buffer of a response.** If the first entry fits, the loop writes as
many of the entries as fit, linked in their order. -/
theorem fillDirBuffer_emitted
    (hc : DirClass.ofCode req.infoClass = some c) (position : Nat) (entry : FileInfo)
    (entries : List FileInfo) (hfit : alignTo8 (entrySize c entry) ≤ req.outputBufferLength.toNat) :
    ∃ w init last, fillDirBuffer req position (entry :: entries) .empty = (none, w) ∧
      w.Holds c init last ∧ w.data.length ≤ req.outputBufferLength.toNat ∧
      w.count = batchSize c req 0 (entry :: entries) ∧
      init ++ [last] = emitted c position 0
        ((entry :: entries).take (batchSize c req 0 (entry :: entries))) := by
  have hnot : ¬ 0 + alignTo8 (entrySize c entry) > req.outputBufferLength.toNat := by omega
  set e := entryBytes c entry (UInt32.ofNat position) with he
  have hentry : IsEntry c (encodeStringToUTF16LE entry.name) e :=
    entryBytes_isEntry (entrySize_lt hnot) _
  have hpush := DirBuffer.holds_push_empty (e := (encodeStringToUTF16LE entry.name, e)) hentry
  dsimp only at hpush
  have hsize : (DirBuffer.empty.push e).data.length = 0 + alignTo8 (entrySize c entry) := by
    rw [hpush.data_eq, List.length_append, padded_length, he, entryBytes_length]
    rfl
  have hstep : fillDirBuffer req position (entry :: entries) .empty =
      if req.returnSingleEntry then (none, DirBuffer.empty.push e)
      else fillDirBuffer req position entries (DirBuffer.empty.push e) := by
    have hempty : DirBuffer.empty.data.length = 0 := rfl
    rw [fillDirBuffer, formatDirEntry_eq hc]
    dsimp only
    rw [entryBytes_length, hempty, if_neg hnot]
    rfl
  -- what is written after the first entry is a continuation of its chain
  obtain ⟨w, init, last, hfill, hw, hlen, hemitted⟩ :
      ∃ w init last, fillDirBuffer req position (entry :: entries) .empty = (none, w) ∧
        w.Holds c init last ∧ w.data.length ≤ req.outputBufferLength.toNat ∧
        init ++ [last] = emitted c position 0
          ((entry :: entries).take (batchSize c req 0 (entry :: entries))) := by
    rw [hstep, batchSize, if_neg hnot]
    by_cases hsingle : req.returnSingleEntry = true
    · rw [if_pos hsingle, if_pos hsingle]
      exact ⟨_, _, _, rfl, hpush, by omega, rfl⟩
    · rw [if_neg hsingle, if_neg hsingle]
      obtain ⟨w, init, last, hfill, hw, hlen, hemitted⟩ :=
        fillDirBuffer_holds hc position entries hpush (by omega)
      refine ⟨w, init, last, hfill, hw, hlen, ?_⟩
      rw [hemitted, hsize]
      rfl
  refine ⟨w, init, last, hfill, hw, hlen, ?_, hemitted⟩
  have hlength := congrArg List.length hemitted
  rw [length_emitted, List.length_take_of_le (batchSize_le _ _ _ _), List.length_append,
    List.length_singleton] at hlength
  rw [hw.count_eq, hlength]

/-- The loop fails on a class that is not supported and on a first entry that
does not fit. -/
theorem fillDirBuffer_success {position : Nat} {entry : FileInfo}
    {entries : List FileInfo} {w : DirBuffer}
    (h : fillDirBuffer req position (entry :: entries) .empty = (none, w)) :
    ∃ c, DirClass.ofCode req.infoClass = some c ∧
      alignTo8 (entrySize c entry) ≤ req.outputBufferLength.toNat := by
  rw [fillDirBuffer] at h
  cases hc : DirClass.ofCode req.infoClass with
  | none =>
    simp only [formatDirEntry, hc] at h
    cases h
  | some c =>
    refine ⟨c, rfl, ?_⟩
    rw [formatDirEntry_eq hc] at h
    dsimp only at h
    rw [entryBytes_length] at h
    by_contra hover
    have hempty : DirBuffer.empty.data.length = 0 := rfl
    rw [if_pos (by omega)] at h
    cases h

/-- A client reads the names of the batch. -/
theorem fillDirBuffer_spec
    (hc : DirClass.ofCode req.infoClass = some c) (position : Nat) (entry : FileInfo)
    (entries : List FileInfo) (hfit : alignTo8 (entrySize c entry) ≤ req.outputBufferLength.toNat) :
    ∃ n w, fillDirBuffer req position (entry :: entries) .empty = (none, w) ∧ 0 < n ∧
      n ≤ (entry :: entries).length ∧ w.count = n ∧ w.data.length < UInt32.size ∧
      entryNames c w.data.length w.data =
        ((entry :: entries).take n).map fun info => encodeStringToUTF16LE info.name := by
  obtain ⟨w, init, last, hfill, hw, hlen, hcount, hemitted⟩ :=
    fillDirBuffer_emitted hc position entry entries hfit
  have hlt : w.data.length < UInt32.size :=
    Nat.lt_of_le_of_lt hlen req.outputBufferLength.toNat_lt
  refine ⟨_, w, hfill, batchSize_pos hfit, batchSize_le _ _ _ _, hcount, hlt, ?_⟩
  rw [hw.entryNames hlt, ← map_fst_emitted c position 0, ← hemitted, List.map_append]
  rfl

section Response

variable {buffer : Bytes}

theorem queryDirectoryResponse_drop : (queryDirectoryResponse buffer).drop 8 = buffer := rfl

theorem queryDirectoryResponse_length (h : buffer.length < UInt32.size) :
    (getUint32 ((queryDirectoryResponse buffer).drop 4)).toNat = buffer.length := by
  have hdrop : (queryDirectoryResponse buffer).drop 4 =
      putUint32 (UInt32.ofNat buffer.length) ++ buffer := rfl
  rw [hdrop, getUint32_putUint32, UInt32.toNat_ofNat']
  exact Nat.mod_eq_of_lt h

/-- The response carries the buffer at the offset and with the length that it has. -/
theorem queryDirectoryResponse_buffer (h : buffer.length < UInt32.size) :
    messageBuffer (queryDirectoryResponse buffer)
      (getUint16 ((queryDirectoryResponse buffer).drop 2)).toNat
      (getUint32 ((queryDirectoryResponse buffer).drop 4)).toNat = some buffer := by
  have hoffset : getUint16 ((queryDirectoryResponse buffer).drop 2) = 72 := by
    have hdrop : (queryDirectoryResponse buffer).drop 2 =
        putUint16 72 ++ (putUint32 (UInt32.ofNat buffer.length) ++ buffer) := rfl
    rw [hdrop, getUint16_putUint16]
  have hlen : (queryDirectoryResponse buffer).length = 8 + buffer.length := by
    simp only [queryDirectoryResponse, List.length_append, putUint32_length]
    rfl
  have hslice : slice (queryDirectoryResponse buffer) 8 buffer.length = buffer := by
    rw [slice, queryDirectoryResponse_drop, List.take_length]
  rw [hoffset, queryDirectoryResponse_length h, show (72 : UInt16).toNat = 72 from rfl,
    messageBuffer, if_neg (by rw [hlen]; simp [smb2HeaderSize])]
  exact congrArg some hslice

theorem responseNames_queryDirectoryResponse (c : DirClass) (h : buffer.length < UInt32.size) :
    responseNames c (queryDirectoryResponse buffer) = entryNames c buffer.length buffer := by
  simp only [responseNames, queryDirectoryResponse_buffer h]

end Response

end Smbfs
