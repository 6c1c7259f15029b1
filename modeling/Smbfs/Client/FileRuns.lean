import Smbfs.Client.File

/-!
What the methods of an open file do to the client: they call the share and
change nothing else.

* `OnlyCalls m`: the program returns, and only calls the share;
* `readAt_run`, `writeAt_run`: where `ReadAt` and `WriteAt` leave the file.
-/

namespace Smbfs.Client

open Smbfs.Lib CM

variable {S : Share} {α β : Type}

/-- The program returns and changes nothing but the content of the share. -/
def OnlyCalls (m : CM S α) : Prop := ∀ s, ∃ a d, m s = .ok a { s with disk := d }

namespace OnlyCalls

theorem pure (a : α) : OnlyCalls (Pure.pure a : CM S α) := fun s => ⟨a, s.disk, rfl⟩

theorem call (c : ShareCall S.File) : OnlyCalls (CM.call c) := fun _ => ⟨_, _, rfl⟩

theorem bind {m : CM S α} {f : α → CM S β} (h : OnlyCalls m) (hf : ∀ a, OnlyCalls (f a)) :
    OnlyCalls (m >>= f) := by
  intro s
  obtain ⟨a, d, hm⟩ := h s
  obtain ⟨b, d', hfa⟩ := hf a { s with disk := d }
  exact ⟨b, d', by rw [bind_run, hm]; exact hfa⟩

end OnlyCalls

theorem writeZeros_onlyCalls (path : Str) (fuel : Nat) (file : S.File) (remaining : Nat) :
    OnlyCalls (File.writeZeros path fuel file remaining) := by
  induction fuel generalizing file remaining with
  | zero => exact .pure _
  | succ fuel ih =>
    unfold File.writeZeros
    split
    · exact .pure _
    · refine .bind (.call _) fun r => ?_
      obtain ⟨⟨n, err⟩, file'⟩ := r
      cases err with
      | some err => exact .pure _
      | none => exact ih file' _

theorem truncateFile_onlyCalls (path : Str) (file : S.File) (size : Int64) :
    OnlyCalls (File.truncateFile path file size) := by
  refine .bind (.call _) fun r => ?_
  cases r with
  | error err => exact .pure _
  | ok info =>
    dsimp only
    split
    · exact .pure _
    · split
      all_goals
        refine .bind (.call _) fun r => ?_
        obtain ⟨r, file'⟩ := r
        cases r with
        | error err => exact .pure _
        | ok position => ?_
      · exact .bind (.call _) fun _ => .pure _
      · exact writeZeros_onlyCalls path _ file' _

/-! ## Reading and writing at an offset -/

namespace FileInUse

variable {file : S.File}

/-- A `Read`: the number of bytes it reports, and what it leaves. -/
def transferRead (n : Nat) (file : S.File) (d : S.Disk) : (Nat × S.File) × S.Disk :=
  let r := S.exec (.read file n) d
  ((r.1.1.1.length, r.1.2), r.2)

/-- A `Write`: the number of bytes it reports, and what it leaves. -/
def transferWrite (data : Bytes) (file : S.File) (d : S.Disk) : (Nat × S.File) × S.Disk :=
  let r := S.exec (.write file data) d
  ((r.1.1.1, r.1.2), r.2)

/-- The file and the content of the share after a call that reads or writes at `off`. -/
def transferAt (f : File S) (file : S.File) (off : Int64)
    (transfer : S.File → S.Disk → (Nat × S.File) × S.Disk) (d : S.Disk) : S.File × S.Disk :=
  match S.exec (.seek file off .start) d with
  | ((.error _, file₁), d₁) => (file₁, d₁)
  | ((.ok _, file₁), d₁) =>
    let r := S.exec (.seek (transfer file₁ d₁).1.2 f.offset .start) (transfer file₁ d₁).2
    (r.1.2, r.2)

theorem readAt_run {f : File S} (hf : f.file = some file) (n : Nat) (off : Int64) (st : State S) :
    ∃ x, f.readAt n off st =
      .ok (x, { f with file := some (transferAt f file off (transferRead n) st.disk).1 })
        { st with disk := (transferAt f file off (transferRead n) st.disk).2 } := by
  unfold File.readAt transferAt transferRead
  rw [hf]
  dsimp only
  rcases h₁ : S.exec (.seek file off .start) st.disk with ⟨⟨r₁, file₁⟩, d₁⟩
  rw [bind_run, call_run h₁]
  cases r₁ with
  | error err => exact ⟨_, rfl⟩
  | ok k =>
    rcases h₂ : S.exec (.read file₁ n) d₁ with ⟨⟨⟨data, err⟩, file₂⟩, d₂⟩
    rcases h₃ : S.exec (.seek file₂ f.offset .start) d₂ with ⟨⟨back, file₃⟩, d₃⟩
    dsimp only
    rw [bind_run, call_run h₂]
    dsimp only
    rw [bind_run, call_run h₃, h₂]
    dsimp only
    rw [h₃]
    cases err with
    | none => cases back <;> exact ⟨_, rfl⟩
    | some err =>
      by_cases heof : err = .sentinel .eof
      · exact ⟨_, by simp only [if_pos heof]; rfl⟩
      · exact ⟨_, by simp only [if_neg heof]; rfl⟩

theorem writeAt_run {f : File S} (hf : f.file = some file) (data : Bytes) (off : Int64)
    (st : State S) :
    ∃ x, f.writeAt data off st =
      .ok (x, { f with file := some (transferAt f file off (transferWrite data) st.disk).1 })
        { st with disk := (transferAt f file off (transferWrite data) st.disk).2 } := by
  unfold File.writeAt transferAt transferWrite
  rw [hf]
  dsimp only
  rcases h₁ : S.exec (.seek file off .start) st.disk with ⟨⟨r₁, file₁⟩, d₁⟩
  rw [bind_run, call_run h₁]
  cases r₁ with
  | error err => exact ⟨_, rfl⟩
  | ok k =>
    rcases h₂ : S.exec (.write file₁ data) d₁ with ⟨⟨⟨n, err⟩, file₂⟩, d₂⟩
    rcases h₃ : S.exec (.seek file₂ f.offset .start) d₂ with ⟨⟨back, file₃⟩, d₃⟩
    dsimp only
    rw [bind_run, call_run h₂]
    dsimp only
    rw [bind_run, call_run h₃, h₂]
    dsimp only
    rw [h₃]
    cases err with
    | none => cases back <;> exact ⟨_, rfl⟩
    | some err => exact ⟨_, rfl⟩

end FileInUse

end Smbfs.Client
