import PRShooter.ExactReal

/-!
# What the handler reads of a payload

`handleMessage` reads the first `payloadLength` bytes of every MESSAGE, where the length is that of
the type byte, and never compares it with the size of the payload. So it stays inside the payload
exactly when the payload is long enough for its type (`handledSafely_iff`).
-/

namespace PRShooter

variable {D F : Type}

/-- The bytes of a complete payload of each type, the type byte included. -/
def payloadLength : DataType → ℕ
  | .changeOrientation => 1 + 4
  | .changeMovementDirection => 1 + 8 + 8
  | .ping => 1 + 2
  | _ => 1

theorem payloadLength_pos (t : DataType) : 0 < payloadLength t := by
  cases t <;> decide

/-! ## The offsets read -/

theorem Message.run_read (m : Message) (offset width : ℕ) (offs : List ℕ) :
    (m.read offset width).run offs =
      (LittleEndian.value ((List.range width).map fun i => m.data (offset + i)),
        offs ++ (List.range width).map (offset + ·)) := rfl

theorem Message.run_read_type (m : Message) (offs : List ℕ) :
    (m.read 0 1).run offs = ((m.data 0).toNat, offs ++ [0]) := by
  simp [Message.run_read, LittleEndian.value]

/-- The reads of the type byte and of the operands cover an initial segment of the payload. -/
theorem Message.offsets_readOp [OfWord 64 D] [OfWord 32 F] (m : Message) :
    ((m.readOp : Reading (ClientOp D F)).run []).2 = List.range (payloadLength m.dataType) := by
  unfold readOp
  rw [StateT.run_bind, run_read_type]
  show ((_ : Reading (ClientOp D F)).run ([] ++ [0])).2 = _
  unfold Message.dataType
  cases DataType.ofByte (m.data 0).toNat <;> rfl

variable [Zero D] [One D] [Zero F] [NatCast D] [IntCast D] [OfScientific D] [Add D]
  [Mul D] [LE D] [DecidableLE D] [Trig F D] [OfWord 64 D] [OfWord 32 F]

theorem run_handleMessage_message (ρ : Rehash ℕ) (draw : ℤ × ℤ) (g : Game D F) (c : ℕ)
    (m : Message) :
    (handleMessage ρ draw g ⟨.message, c, m⟩).run [] =
      (((m.readOp : Reading (ClientOp D F)).run []).1.apply ρ draw g c,
        List.range (payloadLength m.dataType)) := by
  rw [← Message.offsets_readOp (D := D) (F := F) m]
  rfl

/-! ## Safe handling -/

/-- The handler reads offsets below the size of the payload only, and a payload too short for its
type changes no player and no projectile and gets no reply. -/
def HandledSafely (ρ : Rehash ℕ) (draw : ℤ × ℤ) (g : Game D F) (c : ℕ) (m : Message) : Prop :=
  let r := (handleMessage ρ draw g ⟨.message, c, m⟩).run []
  (∀ offset ∈ r.2, offset < m.size) ∧
    (m.size < payloadLength m.dataType →
      r.1.1.players = g.players ∧ r.1.1.projectiles = g.projectiles ∧ r.1.2 = [])

/-- A MESSAGE of any size and any bytes is handled safely exactly when its size is at least the
length its type byte asks for. -/
theorem handledSafely_iff (ρ : Rehash ℕ) (draw : ℤ × ℤ) (g : Game D F) (c : ℕ) (m : Message) :
    HandledSafely ρ draw g c m ↔ payloadLength m.dataType ≤ m.size := by
  unfold HandledSafely
  rw [run_handleMessage_message]
  constructor
  · rintro ⟨hreads, -⟩
    have hpos := payloadLength_pos m.dataType
    -- the last byte the handler reads
    have hlast := hreads (payloadLength m.dataType - 1) (List.mem_range.mpr (by omega))
    omega
  · intro hlen
    refine ⟨fun offset hoffset => ?_, fun hshort => absurd hshort (by omega)⟩
    have := List.mem_range.mp hoffset
    omega

/-- A frame of length zero is enough to make the handler read past the payload. -/
theorem not_handledSafely : ¬ ∀ (ρ : Rehash ℕ) (draw : ℤ × ℤ) (g : Game ℝ ℝ) (c : ℕ) (m : Message),
    HandledSafely ρ draw g c m := by
  intro h
  have hsafe := h Rehash.front (0, 0) (Game.initial ⟨[], 0, 0, [], []⟩) 0 (Message.ofBytes [])
  unfold HandledSafely at hsafe
  rw [run_handleMessage_message] at hsafe
  have h0 := hsafe.1 0 (List.mem_range.mpr (payloadLength_pos _))
  simp [Message.ofBytes] at h0

end PRShooter
