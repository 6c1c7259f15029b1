import Smbfs.Wire.Encoding

/-!
Sequences of reads that stay inside the data.

`Reader.Reads p n v`: with `n` bytes left `p` takes them all and returns `v` of
them. A read past the end takes none, so then every read of `p` is inside. The
rule for `bind` composes the reads of a request.
-/

namespace Smbfs

namespace Reader

variable {α β : Type}

/-- With `n` bytes left the reads take them, and return `v` of what is left. -/
def Reads (p : Reader α) (n : Nat) (v : Bytes → α) : Prop :=
  ∀ data pos, pos + n ≤ data.length → p ⟨data, pos⟩ = (v (data.drop pos), ⟨data, pos + n⟩)

theorem reads_pure (a : α) : Reads (pure a) 0 fun _ => a := fun _ _ _ => rfl

theorem Reads.run_bind {p : Reader α} {m : Nat} {v : Bytes → α} (hp : p.Reads m v)
    (f : α → Reader β) {data : Bytes} {pos : Nat} (h : pos + m ≤ data.length) :
    (p >>= f) ⟨data, pos⟩ = f (v (data.drop pos)) ⟨data, pos + m⟩ := by
  show f (p ⟨data, pos⟩).1 (p ⟨data, pos⟩).2 = _
  rw [hp data pos h]

theorem Reads.bind {p : Reader α} {f : α → Reader β} {m n : Nat} {v : Bytes → α}
    {w : α → Bytes → β} (hp : p.Reads m v) (hf : ∀ a, (f a).Reads n (w a)) :
    (p >>= f).Reads (m + n) fun b => w (v b) (b.drop m) := by
  intro data pos h
  rw [hp.run_bind f (by omega), hf _ data (pos + m) (by omega)]
  simp only [List.drop_drop, Nat.add_assoc]

/-- The value may be given in another form. -/
theorem Reads.congr {p : Reader α} {n : Nat} {v w : Bytes → α} (h : p.Reads n v)
    (heq : ∀ b, v b = w b) : p.Reads n w := by
  intro data pos hlen
  rw [h data pos hlen, heq]

theorem reads_uint16 : readUint16.Reads 2 getUint16 := by
  intro data pos h
  exact if_neg (by dsimp only; omega)

theorem reads_uint32 : readUint32.Reads 4 getUint32 := by
  intro data pos h
  exact if_neg (by dsimp only; omega)

theorem reads_uint64 : readUint64.Reads 8 getUint64 := by
  intro data pos h
  exact if_neg (by dsimp only; omega)

theorem reads_oneByte : readOneByte.Reads 1 fun b => b.headD 0 := by
  intro data pos h
  exact if_neg (by dsimp only; omega)

theorem reads_bytes (n : Nat) : (readBytes n).Reads n fun b => some (b.take n) := by
  intro data pos h
  exact if_neg (by dsimp only; omega)

theorem reads_fileID : readFileID.Reads 16 fun b => ⟨getUint64 b, (getUint64 (b.drop 8)).toNat⟩ :=
  reads_uint64.bind fun _ => reads_uint64.bind fun _ => reads_pure _

theorem reads_utf16String (n : Nat) :
    (readUTF16String n).Reads n fun b => decodeUTF16LEToString (b.take n) :=
  (reads_bytes n).bind fun _ => reads_pure _

section Parse

variable {p : Reader α} {n : Nat} {v : Bytes → α} {data : Bytes}

theorem Reads.parse_eq (h : p.Reads n v) (hlen : n ≤ data.length) : p.parse data = v data := by
  have hrun := h data 0 (by omega)
  unfold parse
  rw [show p.run ⟨data, 0⟩ = p ⟨data, 0⟩ from rfl, hrun, List.drop_zero]

/-- What is read behind the first reads decides the result. -/
theorem Reads.parse_bind (h : p.Reads n v) (f : α → Reader β) (hlen : n ≤ data.length) :
    (p >>= f).parse data = (f (v data) ⟨data, n⟩).1 := by
  have hrun := h.run_bind f (show 0 + n ≤ data.length by omega)
  unfold parse
  rw [show (p >>= f).run ⟨data, 0⟩ = (p >>= f) ⟨data, 0⟩ from rfl, hrun, List.drop_zero,
    Nat.zero_add]

/-- Where the reads end. -/
def parsed (p : Reader α) (data : Bytes) : Nat := (p.run ⟨data, 0⟩).2.pos

theorem Reads.parsed_eq (h : p.Reads n v) (hlen : n ≤ data.length) : p.parsed data = n := by
  have hrun := h data 0 (by omega)
  rw [parsed, show p.run ⟨data, 0⟩ = p ⟨data, 0⟩ from rfl, hrun]
  exact Nat.zero_add n

end Parse

end Reader

end Smbfs
