import Mathlib.Algebra.Ring.Int.Defs
import Mathlib.Algebra.Ring.Nat
import Smbfs.Client.MemShare
import Smbfs.Lib.Run

/-!
`File.ReadDir` called again and again on one open directory. The cursor
`dirPos` is where the entries returned so far end.

* `page_eq`: a call gives the next entries of what remains, or `io.EOF`, unless
  `dirPos + n` exceeds the range of `int`;
* `lastEntry_lt`: then the sum is negative and the slice panics;
* `readDir_pages`: over every sequence of calls, the paging is right exactly if
  no call meets that sum.
-/

namespace Smbfs.Client

open Smbfs.Lib

variable {S : Share}

/-! ## The calls on one file -/

/-- An open directory, the client, and the entries returned so far. -/
structure Paging (S : Share) where
  file : File S
  client : State S
  got : List FileInfo

namespace Paging

/-- A call of `ReadDir`. One that panics returns nothing and leaves the cursor. -/
def step (s : Paging S) (n : Int64) : Paging S :=
  match s.file.readDir n s.client with
  | .ok (.ok entries, f) c => ⟨f, c, s.got ++ entries⟩
  | .ok (.error _, f) c => ⟨f, c, s.got⟩
  | .error .. => s

/-- The call does not panic. It returns entries that continue those returned so far, the
next `n` of what remains of the listing or all of it, or `io.EOF` if nothing remains. -/
def Right (listing : List FileInfo) (s : Paging S) (n : Int64) : Prop :=
  ∃ r f c, s.file.readDir n s.client = .ok (r, f) c ∧
    (∀ entries, r = .ok entries → s.got ++ entries <+: listing ∧
      entries.length = if 0 < n then min n.toNatClampNeg (listing.length - s.got.length)
        else listing.length - s.got.length) ∧
    ∀ err, r = .error err → err = .sentinel .eof ∧ listing.length = s.got.length

/-- The end of the next `n` entries is in the range of `int`, unless nothing remains. -/
def InRange (listing : List FileInfo) (s : Paging S) (n : Int64) : Prop :=
  0 < n → s.got.length < listing.length → s.got.length + n.toInt < 2 ^ 63

instance (listing : List FileInfo) (s : Paging S) (n : Int64) : Decidable (InRange listing s n) :=
  inferInstanceAs (Decidable (0 < n → s.got.length < listing.length → _))

end Paging

/-! ## One page -/

/-- The number of entries that a call asks for, of those that remain. -/
def wanted (remaining : Nat) (n : Int64) : Nat :=
  if 0 < n then min n.toNatClampNeg remaining else remaining

/-- The answer of a call with `rest` of the listing before it. -/
def pageAnswer (rest : List FileInfo) (n : Int64) : Except Err (List FileInfo) :=
  if rest = [] then .error (.sentinel .eof) else .ok (rest.take (wanted rest.length n))

/-- The sum of the cursor and a positive count is exact, or else negative. -/
theorem toInt_ofNat_add {k : Nat} {n : Int64} (hk : k < 2 ^ 63) (hn : 0 < n.toInt) :
    (Int64.ofNat k + n).toInt =
      if k + n.toInt < 2 ^ 63 then k + n.toInt else k + n.toInt - 2 ^ 64 := by
  have hlt := Int64.toInt_lt n
  rw [Int64.toInt_add, Int64.toInt_ofNat_of_lt hk, Int.bmod_def]
  split_ifs <;> omega

variable {f : File S} {entries : List FileInfo} {n : Int64}

/-- All that remains. -/
theorem page_rest (hpos : f.dirPos ≤ entries.length) (hn : ¬ 0 < n) (c : State S) :
    f.page entries n c = .ok (pageAnswer (entries.drop f.dirPos) n,
      { f with dirPos := f.dirPos + wanted (entries.length - f.dirPos) n }) c := by
  have hend : f.dirPos + (entries.length - f.dirPos) = entries.length := by omega
  unfold File.page pageAnswer wanted
  rw [if_pos (Int64.not_lt.mp hn), if_neg hn, if_neg hn, hend, List.take_length]
  split <;> rfl

/-- The end of the entries that a call returns: the sum, but not past the listing. -/
def lastEntry (k len : Nat) (n : Int64) : Int64 :=
  if Int64.ofNat k + n > Int64.ofNat len then Int64.ofNat len else Int64.ofNat k + n

section Last

variable {k len : Nat} (hlen : len < 2 ^ 63) (hn : 0 < n) (hk : k < len)

include hlen hn hk

theorem lastEntry_eq (hin : k + n.toInt < 2 ^ 63) :
    (lastEntry k len n).toInt = (k + wanted (len - k) n : Nat) := by
  have hn' : 0 < n.toInt := Int64.lt_iff_toInt_lt.mp hn
  have hcount : (n.toNatClampNeg : Int) = n.toInt := by
    rw [← Int64.toNat_toInt]
    omega
  have hsum := toInt_ofNat_add (k := k) (by omega) hn'
  rw [if_pos hin] at hsum
  unfold lastEntry
  rw [wanted, if_pos hn]
  split_ifs with hgt <;>
    rw [gt_iff_lt, Int64.lt_iff_toInt_lt, hsum, Int64.toInt_ofNat_of_lt hlen] at hgt
  · rw [Int64.toInt_ofNat_of_lt hlen]
    omega
  · rw [hsum]
    omega

/-- A sum that wraps around ends before it starts. -/
theorem lastEntry_lt (hout : ¬ k + n.toInt < 2 ^ 63) : lastEntry k len n < Int64.ofNat k := by
  have hlt := Int64.toInt_lt n
  have hsum := toInt_ofNat_add (k := k) (by omega) (Int64.lt_iff_toInt_lt.mp hn)
  rw [if_neg hout] at hsum
  have hsmall : ¬ Int64.ofNat k + n > Int64.ofNat len := by
    rw [gt_iff_lt, Int64.lt_iff_toInt_lt, hsum, Int64.toInt_ofNat_of_lt hlen]
    omega
  rw [lastEntry, if_neg hsmall, Int64.lt_iff_toInt_lt, hsum, Int64.toInt_ofNat_of_lt (by omega)]
  omega

end Last

theorem page_last (hn : 0 < n) (hpos : f.dirPos < entries.length) :
    f.page entries n =
      if lastEntry f.dirPos entries.length n < Int64.ofNat f.dirPos then CM.crash
      else pure (.ok ((entries.take
          (lastEntry f.dirPos entries.length n).toNatClampNeg).drop f.dirPos),
        { f with dirPos := (lastEntry f.dirPos entries.length n).toNatClampNeg }) := by
  unfold File.page
  rw [if_neg (Int64.not_le.mpr hn), if_neg (by omega)]
  rfl

/-- The next entries, or the panic if the sum wraps around. -/
theorem page_next (hlen : entries.length < 2 ^ 63) (hn : 0 < n) (hpos : f.dirPos < entries.length)
    (c : State S) :
    f.page entries n c =
      if f.dirPos + n.toInt < 2 ^ 63 then
        .ok (pageAnswer (entries.drop f.dirPos) n,
          { f with dirPos := f.dirPos + wanted (entries.length - f.dirPos) n }) c
      else .error .crash c := by
  rw [page_last hn hpos]
  by_cases hin : f.dirPos + n.toInt < 2 ^ 63
  · have hlast := lastEntry_eq hlen hn hpos hin
    have hnat : (lastEntry f.dirPos entries.length n).toNatClampNeg =
        f.dirPos + wanted (entries.length - f.dirPos) n := by
      rw [← Int64.toNat_toInt, hlast, Int.toNat_natCast]
    have hafter : ¬ lastEntry f.dirPos entries.length n < Int64.ofNat f.dirPos := by
      rw [Int64.lt_iff_toInt_lt, hlast, Int64.toInt_ofNat_of_lt (by omega)]
      omega
    have hrest : entries.drop f.dirPos ≠ [] := by
      rw [ne_eq, List.drop_eq_nil_iff]
      omega
    rw [if_pos hin, if_neg hafter, hnat, List.drop_take, Nat.add_sub_cancel_left, pageAnswer,
      if_neg hrest, List.length_drop]
    rfl
  · rw [if_neg hin, if_pos (lastEntry_lt hlen hn hpos hin)]
    rfl

/-- What a call does if the end of its entries is in the range of `int`. -/
theorem page_eq (hpos : f.dirPos ≤ entries.length) (hlen : entries.length < 2 ^ 63)
    (hin : 0 < n → f.dirPos < entries.length → f.dirPos + n.toInt < 2 ^ 63) (c : State S) :
    f.page entries n c = .ok (pageAnswer (entries.drop f.dirPos) n,
      { f with dirPos := f.dirPos + wanted (entries.length - f.dirPos) n }) c := by
  by_cases hn : 0 < n
  · by_cases hend : f.dirPos < entries.length
    · rw [page_next hlen hn hend, if_pos (hin hn hend)]
    · have hrest : entries.drop f.dirPos = [] := List.drop_eq_nil_iff.mpr (by omega)
      have hwanted : wanted (entries.length - f.dirPos) n = 0 := by
        rw [wanted, if_pos hn]
        omega
      rw [File.page, if_neg (Int64.not_le.mpr hn), if_pos (by omega), pageAnswer, if_pos hrest,
        hwanted]
      rfl
  · exact page_rest hpos hn c

/-! ## The sequence of calls -/

namespace Paging

variable {listing : List FileInfo} {s : Paging S}

/-- The next call is a page of the listing, and the cursor stands behind the entries
returned so far. -/
structure Holds (listing : List FileInfo) (s : Paging S) : Prop where
  got : s.got <+: listing
  ready : ∀ n, ∃ (f : File S) (c : State S), s.file.readDir n s.client = f.page listing n c ∧
    f.file.isSome = true ∧ f.dirEntry = some listing ∧ f.dirPos = s.got.length

theorem holds_of_read {c : State S} {got : List FileInfo} (hgot : got <+: listing)
    (hfile : f.file.isSome = true) (hentries : f.dirEntry = some listing)
    (hpos : f.dirPos = got.length) : Holds listing ⟨f, c, got⟩ := by
  refine ⟨hgot, fun n => ⟨f, c, ?_, hfile, hentries, hpos⟩⟩
  obtain ⟨file, hfile⟩ := Option.isSome_iff_exists.mp hfile
  change f.readDir n c = _
  rw [File.readDir, hfile]
  dsimp only
  rw [hentries]

/-- A file as `OpenFile` returns it reads the directory at the first call. -/
theorem holds_opened {D : List FileInfo} {conn : Nat} {file : S.File} {path : Str} {st : State S}
    (hD : (S.exec (.readdir file (-1)) st.disk).1.1 = .ok D) :
    Holds (visible D) ⟨File.opened conn file path, st, []⟩ := by
  refine ⟨List.nil_prefix, fun n => ⟨⟨some conn, some (S.exec (.readdir file (-1)) st.disk).1.2,
    path, 0, some (visible D), 0⟩, { st with disk := (S.exec (.readdir file (-1)) st.disk).2 }, ?_,
    rfl, rfl, rfl⟩⟩
  change File.readDir _ n st = _
  rw [File.readDir]
  dsimp only [File.opened]
  rw [bind_run]
  dsimp only [CM.call]
  rw [hD]

/-- A call in range. -/
theorem Holds.readDir (h : Holds listing s) (hlen : listing.length < 2 ^ 63)
    (hin : InRange listing s n) :
    ∃ f c, s.file.readDir n s.client = .ok (pageAnswer (listing.drop s.got.length) n, f) c ∧
      f.file.isSome = true ∧ f.dirEntry = some listing ∧
      f.dirPos = s.got.length + wanted (listing.length - s.got.length) n := by
  obtain ⟨f, c, hrun, hfile, hentries, hpos⟩ := h.ready n
  have hle := h.got.length_le
  rw [page_eq (by omega) hlen (by rw [hpos]; exact hin), hpos] at hrun
  exact ⟨_, _, hrun, hfile, hentries, rfl⟩

/-- A call out of range. -/
theorem Holds.crash (h : Holds listing s) (hlen : listing.length < 2 ^ 63)
    (hout : ¬ InRange listing s n) : ∃ c, s.file.readDir n s.client = .error .crash c := by
  obtain ⟨f, c, hrun, -, -, hpos⟩ := h.ready n
  unfold InRange at hout
  push Not at hout
  obtain ⟨hn, hlt, hsum⟩ := hout
  rw [page_next hlen hn (by omega), if_neg (by omega)] at hrun
  exact ⟨c, hrun⟩

theorem length_take_wanted (rest : List FileInfo) (n : Int64) :
    (rest.take (wanted rest.length n)).length = wanted rest.length n := by
  rw [List.length_take, wanted]
  split <;> omega

theorem Holds.step (h : Holds listing s) (hlen : listing.length < 2 ^ 63) (n : Int64) :
    Holds listing (s.step n) := by
  by_cases hin : InRange listing s n
  · obtain ⟨f, c, hrun, hfile, hentries, hpos⟩ := h.readDir hlen hin
    unfold Paging.step
    rw [hrun, pageAnswer]
    obtain ⟨rest, rfl⟩ := h.got
    rw [List.drop_left]
    rw [List.length_append, Nat.add_sub_cancel_left] at hpos
    by_cases hnil : rest = []
    · subst hnil
      rw [if_pos rfl]
      refine holds_of_read (List.prefix_append _ _) hfile hentries ?_
      rw [hpos, wanted]
      split <;> simp
    · rw [if_neg hnil]
      refine holds_of_read ?_ hfile hentries ?_
      · exact (List.prefix_append_right_inj _).mpr (List.take_prefix _ _)
      · rw [hpos, List.length_append, length_take_wanted]
  · obtain ⟨c, hrun⟩ := h.crash hlen hin
    unfold Paging.step
    rw [hrun]
    exact h

theorem Holds.right_iff (h : Holds listing s) (hlen : listing.length < 2 ^ 63) (n : Int64) :
    Right listing s n ↔ InRange listing s n := by
  constructor
  · rintro ⟨r, f, c, hrun, -⟩
    by_contra hin
    obtain ⟨c', hcrash⟩ := h.crash hlen hin
    cases hcrash.symm.trans hrun
  · intro hin
    obtain ⟨f, c, hrun, -⟩ := h.readDir hlen hin
    obtain ⟨rest, rfl⟩ := h.got
    rw [List.drop_left] at hrun
    refine ⟨_, f, c, hrun, ?_, ?_⟩
    · intro entries hentries
      unfold pageAnswer at hentries
      split at hentries
      · cases hentries
      · cases hentries
        refine ⟨(List.prefix_append_right_inj _).mpr (List.take_prefix _ _), ?_⟩
        rw [length_take_wanted, List.length_append, Nat.add_sub_cancel_left, wanted]
    · intro err herr
      unfold pageAnswer at herr
      split at herr
      · cases herr
        rename_i hnil
        exact ⟨rfl, by rw [hnil, List.append_nil]⟩
      · cases herr

end Paging

/-- **Directory paging.** On a directory just opened, whose listing is `D`, every call of a
sequence pages rightly through `D` without its dot entries, exactly if the end of what is
asked for never exceeds the range of `int` while entries remain. -/
theorem readDir_pages (conn : Nat) (file : S.File) (path : Str) (st : State S) (D : List FileInfo)
    (hD : (S.exec (.readdir file (-1)) st.disk).1.1 = .ok D) (hlen : D.length < 2 ^ 63)
    (calls : List Int64) :
    Along Paging.step (Paging.Right (visible D)) ⟨File.opened conn file path, st, []⟩ calls ↔
      Along Paging.step (Paging.InRange (visible D)) ⟨File.opened conn file path, st, []⟩ calls := by
  have hvis : (visible D).length < 2 ^ 63 := Nat.lt_of_le_of_lt (List.length_filter_le _ _) hlen
  exact along_iff_along (I := Paging.Holds (visible D)) (fun _ n h => h.step hvis n)
    (fun _ n h => h.right_iff hvis n) (Paging.holds_opened hD)

/-- A root directory with the files `a` and `b`. -/
def twoFiles : MemTree :=
  [([['a']], .file [] 0o644 0), ([['b']], .file [] 0o644 0), ([], .dir 0o755 0)]

/-- The root directory of `twoFiles`, just opened. -/
def twoFilesOpened : Paging memShare :=
  ⟨File.opened 0 ⟨[], 0⟩ ['/'], State.new defaultCacheConfig twoFiles, []⟩

theorem readDir_pages_two :
    Along Paging.step (Paging.Right (visible (twoFiles.children []))) twoFilesOpened
      [1, 5, 0, -1] := by
  have hin : Along Paging.step (Paging.InRange (visible (twoFiles.children []))) twoFilesOpened
      [1, 5, 0, -1] := by decide +kernel
  exact (readDir_pages (S := memShare) 0 ⟨[], 0⟩ ['/'] (State.new defaultCacheConfig twoFiles)
    (twoFiles.children []) rfl (by decide) [1, 5, 0, -1]).mpr hin

/-- After one entry, a call for the greatest count panics. -/
theorem readDir_pages_greatest :
    ¬ Along Paging.step (Paging.Right (visible (twoFiles.children []))) twoFilesOpened
      [1, Int64.maxValue] := by
  rintro ⟨-, ⟨r, f, c, hrun, -⟩, -⟩
  have hcrash : valueOf ((twoFilesOpened.step 1).file.readDir Int64.maxValue
      (twoFilesOpened.step 1).client) = none := by decide +kernel
  rw [hrun] at hcrash
  cases hcrash

end Smbfs.Client
