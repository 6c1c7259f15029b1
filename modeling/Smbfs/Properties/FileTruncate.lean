import Mathlib.Algebra.Ring.Int.Defs
import Mathlib.Algebra.Ring.Nat
import Smbfs.Client.MemShare

/-!
`File.Truncate` over a share that stores the bytes of its files. A share has no
call for it: a file is cut by a write of nothing at the new end, and extended by
writes of zeros at the old one.

* `ByteFiles`: open files with a content and a position, and what `Stat`, `Seek`
  and `Write` do to them when nothing fails;
* `writeZeros_content`: the loop of `Truncate` adds as many zeros as it was asked
  for, in chunks of 4096;
* `truncate_content`: the content afterwards.
-/

namespace Smbfs.Client

open Smbfs.Lib CM

/-! ## Files of bytes -/

/-- The content after `data` is stored at a position inside the file or at its end. A
write of nothing cuts the file at the position. -/
def stored (content : Bytes) (pos : Nat) (data : Bytes) : Bytes :=
  if data = [] then content.take pos
  else content.take pos ++ data ++ content.drop (pos + data.length)

/-- Files opened for writing that have a content and a position, on a share where no call
on them fails. -/
structure ByteFiles (S : Share) where
  Writable : S.Disk → S.File → Prop
  content : S.Disk → S.File → Bytes
  pos : S.File → Nat
  fileStat : ∀ d f, Writable d f → ∃ info d', S.exec (.fileStat f) d = (.ok info, d') ∧
    info.size = Int64.ofNat (content d f).length ∧ Writable d' f ∧ content d' f = content d f
  seekStart : ∀ d f (offset : Int64), Writable d f → 0 ≤ offset → ∃ f' d',
    S.exec (.seek f offset .start) d = ((.ok offset, f'), d') ∧
      Writable d' f' ∧ content d' f' = content d f ∧ pos f' = offset.toNatClampNeg
  seekEnd : ∀ d f, Writable d f → ∃ newOffset f' d',
    S.exec (.seek f 0 .fromEnd) d = ((.ok newOffset, f'), d') ∧
      Writable d' f' ∧ content d' f' = content d f ∧ pos f' = (content d f).length
  write : ∀ d f data, Writable d f → pos f ≤ (content d f).length → ∃ f' d',
    S.exec (.write f data) d = (((data.length, none), f'), d') ∧
      Writable d' f' ∧ content d' f' = stored (content d f) (pos f) data ∧
      pos f' = pos f + data.length

variable {S : Share} (V : ByteFiles S)

/-! ## The loop -/

theorem stored_at_end (content : Bytes) {data : Bytes} (h : data ≠ []) :
    stored content content.length data = content ++ data := by
  rw [stored, if_neg h, List.take_length, List.drop_eq_nil_of_le (by omega), List.append_nil]

theorem writeZeros_content (path : Str) (fuel : Nat) (file : S.File) (remaining : Nat)
    (st : State S) (hfuel : remaining ≤ fuel) (hw : V.Writable st.disk file)
    (hend : V.pos file = (V.content st.disk file).length) :
    ∃ file' st', File.writeZeros path fuel file remaining st = .ok (none, file') st' ∧
      V.Writable st'.disk file' ∧
      V.content st'.disk file' = V.content st.disk file ++ zeros remaining := by
  induction fuel generalizing file remaining st with
  | zero =>
    obtain rfl : remaining = 0 := by omega
    exact ⟨file, st, rfl, hw, (List.append_nil _).symm⟩
  | succ fuel ih =>
    rw [File.writeZeros]
    by_cases hzero : remaining = 0
    · subst hzero
      exact ⟨file, st, rfl, hw, (List.append_nil _).symm⟩
    · rw [if_neg hzero]
      have hchunk : (List.replicate (min remaining 4096) 0 : Bytes) ≠ [] := by simp [hzero]
      obtain ⟨file₁, d₁, hrun, hw₁, hcontent₁, hpos₁⟩ :=
        V.write st.disk file (List.replicate (min remaining 4096) 0) hw (Nat.le_of_eq hend)
      rw [hend, stored_at_end _ hchunk] at hcontent₁
      have hend₁ : V.pos file₁ = (V.content d₁ file₁).length := by
        rw [hpos₁, hcontent₁, hend, List.length_append]
      obtain ⟨file', st', hrun', hw', hcontent'⟩ :=
        ih file₁ (remaining - min remaining 4096) { st with disk := d₁ } (by omega) hw₁ hend₁
      refine ⟨file', st', ?_, hw', ?_⟩
      · rw [bind_run, call_run hrun]
        exact hrun'
      · have hsplit : min remaining 4096 + (remaining - min remaining 4096) = remaining := by omega
        rw [hcontent', hcontent₁, List.append_assoc, zeros, zeros, List.replicate_append_replicate,
          hsplit]

/-! ## Truncate -/

theorem toNatClampNeg_sub {a b : Int64} (hb : 0 ≤ b.toInt) (h : b.toInt < a.toInt) :
    (a - b).toNatClampNeg = a.toNatClampNeg - b.toNatClampNeg := by
  have ha := Int64.toInt_lt a
  have hsub : (a - b).toInt = a.toInt - b.toInt := by
    rw [Int64.toInt_sub, Int.bmod_def]
    split_ifs <;> omega
  rw [← Int64.toNat_toInt, ← Int64.toNat_toInt, ← Int64.toNat_toInt, hsub]
  omega

/-- A write of nothing at the new end. -/
theorem cut_content {d : S.Disk} {file : S.File} {size : Int64} (hw : V.Writable d file)
    (hsize : 0 ≤ size) (hle : size.toNatClampNeg ≤ (V.content d file).length) :
    ∃ file₁ d₁ file₂ d₂, S.exec (.seek file size .start) d = ((.ok size, file₁), d₁) ∧
      S.exec (.write file₁ []) d₁ = (((0, none), file₂), d₂) ∧ V.Writable d₂ file₂ ∧
      V.content d₂ file₂ = (V.content d file).take size.toNatClampNeg := by
  obtain ⟨file₁, d₁, hseek, hw₁, hcontent₁, hpos₁⟩ := V.seekStart d file size hw hsize
  have hpos : V.pos file₁ ≤ (V.content d₁ file₁).length := by rwa [hpos₁, hcontent₁]
  obtain ⟨file₂, d₂, hwrite, hw₂, hcontent₂, -⟩ := V.write d₁ file₁ [] hw₁ hpos
  refine ⟨file₁, d₁, file₂, d₂, hseek, hwrite, hw₂, ?_⟩
  rw [hcontent₂, stored, if_pos rfl, hpos₁, hcontent₁]

/-- Zeros at the old end. -/
theorem extend_content (path : Str) {file : S.File} (k : Nat) (st : State S)
    (hw : V.Writable st.disk file) :
    ∃ newOffset file₁ d₁ file₂ st₂,
      S.exec (.seek file 0 .fromEnd) st.disk = ((.ok newOffset, file₁), d₁) ∧
      File.writeZeros path k file₁ k { st with disk := d₁ } = .ok (none, file₂) st₂ ∧
      V.Writable st₂.disk file₂ ∧
      V.content st₂.disk file₂ = V.content st.disk file ++ zeros k := by
  obtain ⟨newOffset, file₁, d₁, hseek, hw₁, hcontent₁, hpos₁⟩ := V.seekEnd st.disk file hw
  obtain ⟨file₂, st₂, hzeros, hw₂, hcontent₂⟩ := writeZeros_content V path k file₁ k
    { st with disk := d₁ } (Nat.le_refl _) hw₁ (by rw [hpos₁, hcontent₁])
  refine ⟨newOffset, file₁, d₁, file₂, st₂, hseek, hzeros, hw₂, ?_⟩
  rw [hcontent₂, hcontent₁]

theorem truncateFile_content (path : Str) (file : S.File) (size : Int64) (st : State S)
    (hw : V.Writable st.disk file) (hlen : (V.content st.disk file).length < 2 ^ 63)
    (hsize : 0 ≤ size) :
    ∃ file' st', File.truncateFile path file size st = .ok (none, file') st' ∧
      V.Writable st'.disk file' ∧
      V.content st'.disk file' = (V.content st.disk file).take size.toNatClampNeg ++
        zeros (size.toNatClampNeg - (V.content st.disk file).length) := by
  obtain ⟨info, d₁, hstat, hcur, hw₁, hcontent₁⟩ := V.fileStat st.disk file hw
  have hcur' : info.size.toInt = (V.content st.disk file).length := by
    rw [hcur, Int64.toInt_ofNat_of_lt hlen]
  have hcurNat : info.size.toNatClampNeg = (V.content st.disk file).length := by
    rw [← Int64.toNat_toInt, hcur', Int.toNat_natCast]
  have hsize' : (size.toNatClampNeg : Int) = size.toInt := by
    rw [← Int64.toNat_toInt, Int.toNat_of_nonneg (Int64.le_iff_toInt_le.mp hsize)]
  rw [File.truncateFile, bind_run, call_run hstat]
  dsimp only
  by_cases heq : size = info.size
  · rw [if_pos heq]
    refine ⟨file, _, rfl, hw₁, ?_⟩
    rw [heq, hcurNat, Nat.sub_self, List.take_length, hcontent₁]
    exact (List.append_nil _).symm
  · rw [if_neg heq]
    by_cases hshrink : size < info.size
    · rw [if_pos hshrink, bind_run]
      rw [Int64.lt_iff_toInt_lt, hcur'] at hshrink
      obtain ⟨file₂, d₂, file₃, d₃, hseek, hwrite, hw₃, hcontent₃⟩ :=
        cut_content V hw₁ hsize (by rw [hcontent₁]; omega)
      refine ⟨file₃, { st with disk := d₃ }, ?_, hw₃, ?_⟩
      · rw [call_run hseek]
        dsimp only
        rw [bind_run, call_run hwrite]
        rfl
      · rw [hcontent₃, hcontent₁, Nat.sub_eq_zero_of_le (by omega)]
        exact (List.append_nil _).symm
    · rw [if_neg hshrink, bind_run]
      have hgrow : info.size.toInt < size.toInt := by
        rw [Int64.lt_iff_toInt_lt] at hshrink
        have hne : size.toInt ≠ info.size.toInt := fun h => heq (Int64.toInt_inj.mp h)
        omega
      have hremaining := toNatClampNeg_sub (by omega) hgrow
      rw [hcurNat] at hremaining
      obtain ⟨newOffset, file₂, d₂, file₃, st₃, hseek, hzeros, hw₃, hcontent₃⟩ :=
        extend_content V path (size - info.size).toNatClampNeg { st with disk := d₁ } hw₁
      refine ⟨file₃, st₃, ?_, hw₃, ?_⟩
      · rw [call_run hseek]
        exact hzeros
      · rw [hcontent₃, hcontent₁, hremaining, List.take_of_length_le (by omega)]

/-- **Truncate sets the length.** The first `size` bytes stay, and zeros stand where the
file had none. -/
theorem truncate_content (f : File S) (file : S.File) (hf : f.file = some file) (st : State S)
    (hw : V.Writable st.disk file) (hlen : (V.content st.disk file).length < 2 ^ 63)
    (size : Int64) (hsize : 0 ≤ size) :
    ∃ file' st', f.truncate size st = .ok (none, { f with file := some file' }) st' ∧
      V.content st'.disk file' = (V.content st.disk file).take size.toNatClampNeg ++
        zeros (size.toNatClampNeg - (V.content st.disk file).length) := by
  obtain ⟨file', st', hrun, -, hcontent⟩ :=
    truncateFile_content V f.path file size st hw hlen hsize
  refine ⟨file', st', ?_, hcontent⟩
  rw [File.truncate, hf]
  dsimp only
  rw [bind_run, hrun]
  rfl

/-! ## The share in memory -/

namespace MemTree

variable {t : MemTree} {f : TreeFile} {data : Bytes} {mode : FileMode} {modTime : GoTime}

theorem content_of_node (h : t.node (splitName f.name) = some (.file data mode modTime)) :
    t.content f = data := by
  rw [content, h]

theorem overwrite_eq_stored (pos : Nat) (new : Bytes) (h : pos ≤ data.length) :
    overwrite data pos new = stored data pos new := by
  rw [overwrite, stored, Nat.sub_eq_zero_of_le h, List.replicate_zero, List.append_nil]

theorem seek_start (t : MemTree) (f : TreeFile) {offset : Int64} (h : 0 ≤ offset) :
    t.seek f offset .start = (.ok offset, { f with pos := offset.toNatClampNeg }) := by
  have hpos : 0 ≤ offset.toInt := Int64.le_iff_toInt_le.mp h
  rw [seek, Int.zero_add, if_neg (Int.not_lt.mpr hpos), Int64.ofInt_toInt, Int64.toNat_toInt]

theorem seek_fromEnd (t : MemTree) (f : TreeFile) : ∃ newOffset,
    t.seek f 0 .fromEnd = (.ok newOffset, { f with pos := (t.content f).length }) := by
  refine ⟨Int64.ofInt (t.content f).length, ?_⟩
  rw [seek, Int64.toInt_zero, Int.add_zero, if_neg (by omega), Int.toNat_natCast]

end MemTree

/-- The files of the share in memory. -/
def memFiles : ByteFiles memShare where
  Writable t f := ∃ data mode modTime, t.node (splitName f.name) = some (.file data mode modTime)
  content := MemTree.content
  pos := TreeFile.pos
  fileStat := by
    rintro t f ⟨data, mode, modTime, hnode⟩
    refine ⟨MemTree.info (MemTree.nameOf (splitName f.name)) (.file data mode modTime), t, ?_, ?_,
      ⟨data, mode, modTime, hnode⟩, rfl⟩
    · change (t.stat f.name, t) = _
      rw [MemTree.stat, hnode]
    · rw [MemTree.content_of_node hnode]
      rfl
  seekStart := by
    intro t f offset hw hoff
    refine ⟨{ f with pos := offset.toNatClampNeg }, t, ?_, hw, rfl, rfl⟩
    change (t.seek f offset .start, t) = _
    rw [t.seek_start f hoff]
  seekEnd := by
    intro t f hw
    obtain ⟨newOffset, hseek⟩ := t.seek_fromEnd f
    refine ⟨newOffset, { f with pos := (t.content f).length }, t, ?_, hw, rfl, rfl⟩
    change (t.seek f 0 .fromEnd, t) = _
    rw [hseek]
  write := by
    rintro t f new ⟨data, mode, modTime, hnode⟩ hpos
    rw [MemTree.content_of_node hnode] at hpos ⊢
    refine ⟨{ f with pos := f.pos + new.length },
      t.set (splitName f.name) (.file (MemTree.overwrite data f.pos new) mode modTime), ?_,
      ⟨_, _, _, MemTree.node_set_self _ _ _⟩, ?_, rfl⟩
    · change t.write f new = _
      rw [MemTree.write, hnode]
    · exact (MemTree.content_of_node (MemTree.node_set_self _ _ _)).trans
        (MemTree.overwrite_eq_stored _ _ hpos)

/-- A file of three bytes, extended by one write of 4096 zeros and one of 901. -/
theorem truncate_content_longer :
    ∃ file' st', (File.opened 0 ⟨['a'], 0⟩ ['/', 'a'] : File memShare).truncate 5000
        (State.new defaultCacheConfig [([['a']], .file [1, 2, 3] 0o644 0)]) =
        .ok (none, { (File.opened 0 ⟨['a'], 0⟩ ['/', 'a'] : File memShare) with
          file := some file' }) st' ∧
      memFiles.content st'.disk file' = [1, 2, 3] ++ zeros 4997 :=
  truncate_content memFiles (File.opened 0 ⟨['a'], 0⟩ ['/', 'a']) ⟨['a'], 0⟩ rfl
    (State.new defaultCacheConfig [([['a']], .file [1, 2, 3] 0o644 0)])
    ⟨[1, 2, 3], 0o644, 0, rfl⟩ (by decide) 5000 (by decide)

end Smbfs.Client
