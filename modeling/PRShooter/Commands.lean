import PRShooter.StartReceiving
import PRShooter.Payload
import PRShooter.GameStateCodec

/-!
# From the client's commands to the host's operations

`send_message` of `Client/client.py` writes each command as a header, a type byte and the operands.
Behind the receiver of the server, `handleMessage` reads the same operands again, calls the
operation of the command's name with them, and answers a PING with its id (`commands_dispatched`).
-/

namespace PRShooter

open LittleEndian Framing

namespace Client

/-! ## `send_message` -/

/-- What `send_message` reads of the client: the words of `angle` and of
`directionToVelocity[direction]`, and the id of `last_ping`. -/
structure Sender where
  connected : Bool
  angle : BitVec 32
  velocity : Point (BitVec 64)
  lastPing : ℤ

/-- `v.to_bytes(length, 'little')`, which raises if `v` does not fit. -/
def toBytes (length : ℕ) (v : ℤ) : Option (List UInt8) :=
  if 0 ≤ v ∧ v < 256 ^ length then some (bytes length v.toNat) else none

/-- `send_message`: the bytes sent, and the client afterwards. -/
def sendMessage (self : Sender) (dataType : DataType) : Option (List UInt8 × Sender) :=
  if self.connected = false then some ([], self)
  else
    match dataType with
    | .spawn | .shoot => some ([1, 0, 0, 0] ++ bytes 1 dataType.toNat, self)
    | .changeOrientation =>
      some ([5, 0, 0, 0] ++ bytes 1 dataType.toNat ++ bytes 4 self.angle.toNat, self)
    | .changeMovementDirection =>
      some ([17, 0, 0, 0] ++ bytes 1 dataType.toNat ++ bytes 8 self.velocity.x.toNat
        ++ bytes 8 self.velocity.y.toNat, self)
    | .ping => do
      let id ← toBytes 2 (self.lastPing + 1)
      return ([3, 0, 0, 0] ++ bytes 1 dataType.toNat ++ id,
        { self with lastPing := self.lastPing + 1 })
    | _ => some ([], self)

/-! ## Commands -/

/-- A command with the operands that are sent. -/
inductive Command where
  | spawn
  | shoot
  | changeOrientation (angle : BitVec 32)
  | changeMovementDirection (velocityX velocityY : BitVec 64)
  | ping (id : ℕ)

namespace Command

/-- The argument of `send_message`. -/
def dataType : Command → DataType
  | spawn => .spawn
  | shoot => .shoot
  | changeOrientation _ => .changeOrientation
  | changeMovementDirection _ _ => .changeMovementDirection
  | ping _ => .ping

/-- The client whose attributes are the operands of the command. -/
def operands (self : Sender) : Command → Sender
  | spawn | shoot => self
  | changeOrientation angle => { self with angle }
  | changeMovementDirection velocityX velocityY => { self with velocity := ⟨velocityX, velocityY⟩ }
  | ping id => { self with lastPing := id - 1 }

/-- What the command asks the host for. -/
def op {D F : Type} [OfWord 64 D] [OfWord 32 F] : Command → ClientOp D F
  | spawn => .spawn
  | shoot => .shoot
  | changeOrientation angle => .changeOrientation (ofWord angle)
  | changeMovementDirection velocityX velocityY =>
    .changeMovementDirection (ofWord velocityX) (ofWord velocityY)
  | ping id => .ping id

/-- The payload of the command: its type and its operands. -/
def body : Command → List UInt8
  | spawn => bytes 1 DataType.spawn.toNat
  | shoot => bytes 1 DataType.shoot.toNat
  | changeOrientation angle => bytes 1 DataType.changeOrientation.toNat ++ bytes 4 angle.toNat
  | changeMovementDirection velocityX velocityY =>
    bytes 1 DataType.changeMovementDirection.toNat ++ bytes 8 velocityX.toNat
      ++ bytes 8 velocityY.toNat
  | ping id => bytes 1 DataType.ping.toNat ++ bytes 2 id

/-- The id of a PING is a number of two bytes. -/
def IdFits : Command → Prop
  | ping id => id < 65536
  | _ => True

end Command

/-- The bytes that the commands are sent as, one after the other. -/
def sendCommands : Sender → List Command → Option (List UInt8)
  | _, [] => some []
  | self, cmd :: cmds => do
    let (sent, self) ← sendMessage (cmd.operands self) cmd.dataType
    let rest ← sendCommands self cmds
    return sent ++ rest

/-! ## What is sent -/

theorem toBytes_natCast {length v : ℕ} (h : v < 256 ^ length) :
    toBytes length v = some (bytes length v) := by
  have hv : (v : ℤ) < 256 ^ length := by exact_mod_cast h
  unfold toBytes
  rw [if_pos ⟨Int.natCast_nonneg v, hv⟩, Int.toNat_natCast]

theorem frame_of_length {body : List UInt8} {n : ℕ} (h : body.length = n) :
    frame body = bytes 4 n ++ body := by
  unfold frame
  rw [h]

@[simp] theorem Command.connected_operands (self : Sender) (cmd : Command) :
    (cmd.operands self).connected = self.connected := by
  cases cmd <;> rfl

/-- Each command is one frame. -/
theorem sendMessage_operands {self : Sender} (hconnected : self.connected = true) {cmd : Command}
    (h : cmd.IdFits) : ∃ self', sendMessage (cmd.operands self) cmd.dataType =
      some (frame cmd.body, self') ∧ self'.connected = true := by
  unfold sendMessage
  rw [if_neg (by simp [hconnected])]
  cases cmd with
  | spawn | shoot => exact ⟨self, rfl, hconnected⟩
  | changeOrientation angle =>
    refine ⟨{ self with angle }, ?_, hconnected⟩
    rw [frame_of_length (n := 5) (by simp [Command.body])]
    rfl
  | changeMovementDirection velocityX velocityY =>
    refine ⟨{ self with velocity := ⟨velocityX, velocityY⟩ }, ?_, hconnected⟩
    rw [frame_of_length (n := 17) (by simp [Command.body])]
    rfl
  | ping id =>
    refine ⟨{ self with lastPing := id - 1 + 1 }, ?_, hconnected⟩
    have hid : toBytes 2 ((id : ℤ) - 1 + 1) = some (bytes 2 id) := by
      rw [Int.sub_add_cancel]
      exact toBytes_natCast h
    rw [frame_of_length (n := 3) (by simp [Command.body])]
    simp only [Command.dataType, Command.operands, hid, Option.bind_eq_bind, Option.bind_some]
    rfl

/-- A sequence of commands is the stream of their payloads. -/
theorem sendCommands_eq {cmds : List Command} (h : ∀ cmd ∈ cmds, cmd.IdFits) {self : Sender}
    (hconnected : self.connected = true) :
    sendCommands self cmds = some (stream (cmds.map Command.body)) := by
  induction cmds generalizing self with
  | nil => rfl
  | cons cmd cmds ih =>
    obtain ⟨self', hsent, hconnected'⟩ := sendMessage_operands hconnected (h cmd (by simp))
    unfold sendCommands
    rw [hsent]
    simp [ih (fun cmd hcmd => h cmd (by simp [hcmd])) hconnected']

theorem Command.length_body_lt (cmd : Command) : cmd.body.length < 18 := by
  cases cmd <;> simp [body]

theorem Command.dataType_lt (cmd : Command) : cmd.dataType.toNat < 256 ^ 1 := by
  cases cmd <;> simp only [dataType] <;> decide

/-- A payload begins with the type. -/
theorem Command.body_eq (cmd : Command) :
    ∃ operands, cmd.body = bytes 1 cmd.dataType.toNat ++ operands := by
  cases cmd with
  | spawn | shoot => exact ⟨[], rfl⟩
  | changeOrientation angle => exact ⟨_, rfl⟩
  | changeMovementDirection velocityX velocityY => exact ⟨_, List.append_assoc ..⟩
  | ping id => exact ⟨_, rfl⟩

end Client

/-! ## What the host reads -/

/-- The memory inside a payload is its bytes. -/
theorem Message.map_data {m : Message} {offset width : ℕ} (h : offset + width ≤ m.size) :
    ((List.range width).map fun i => m.data (offset + i)) = (m.bytes.drop offset).take width := by
  refine List.ext_getElem (by simp [Message.bytes]; omega) fun i hi _ => ?_
  simp [Message.bytes]

/-- A number written at some offset of the payload is read back there. -/
theorem Message.read_operand {m : Message} (before after : List UInt8) {offset width v : ℕ}
    (hbytes : m.bytes = before ++ (LittleEndian.bytes width v ++ after))
    (hoffset : before.length = offset) (hv : v < 256 ^ width) (offs : List ℕ) :
    ((m.read offset width).run offs).1 = v := by
  subst hoffset
  have hsize : m.size = m.bytes.length := by simp [Message.bytes]
  have hle : before.length + width ≤ m.size := by
    rw [hsize, hbytes]
    simp
  rw [Message.run_read, Message.map_data hle, hbytes, List.drop_left' rfl,
    List.take_left' (length_bytes width v), value_bytes_of_lt hv]

theorem ofNat_toNat_word {w n : ℕ} {word : BitVec w} (h : n = word.toNat) :
    BitVec.ofNat w n = word := by
  rw [h, BitVec.ofNat_toNat, BitVec.setWidth_eq]

/-- The payload of a command is read as the operation it stands for. -/
theorem Message.readOp_body {D F : Type} [OfWord 64 D] [OfWord 32 F] {m : Message}
    {cmd : Client.Command} (hbytes : m.bytes = cmd.body) (hid : cmd.IdFits) :
    ((m.readOp : Reading (ClientOp D F)).run []).1 = cmd.op := by
  let type := LittleEndian.bytes 1 cmd.dataType.toNat
  have htype : (m.data 0).toNat = cmd.dataType.toNat := by
    obtain ⟨operands, hbody⟩ := cmd.body_eq
    have hread : ((m.read 0 1).run []).1 = cmd.dataType.toNat :=
      m.read_operand [] operands (by rw [hbytes, hbody]; rfl) rfl cmd.dataType_lt []
    rwa [m.run_read_type] at hread
  unfold readOp
  rw [StateT.run_bind, run_read_type, htype]
  cases cmd with
  | spawn | shoot => rfl
  | changeOrientation angle =>
    have hangle : ((m.read 1 4).run ([] ++ [0])).1 = angle.toNat :=
      m.read_operand type [] (by rw [hbytes, List.append_nil]; rfl) rfl angle.isLt _
    show ClientOp.changeOrientation (ofWord (BitVec.ofNat 32 ((m.read 1 4).run ([] ++ [0])).1)) = _
    rw [ofNat_toNat_word hangle]
    rfl
  | changeMovementDirection velocityX velocityY =>
    have hx : ∀ offs, ((m.read 1 8).run offs).1 = velocityX.toNat :=
      m.read_operand type (LittleEndian.bytes 8 velocityY.toNat)
        (hbytes.trans (List.append_assoc ..)) rfl velocityX.isLt
    have hy : ∀ offs, ((m.read 9 8).run offs).1 = velocityY.toNat :=
      m.read_operand (type ++ LittleEndian.bytes 8 velocityX.toNat) []
        (by rw [hbytes, List.append_nil]; rfl) rfl velocityY.isLt
    refine congrArg₂ ClientOp.changeMovementDirection ?_ ?_
    · exact congrArg ofWord (ofNat_toNat_word (hx ([] ++ [0])))
    · exact congrArg ofWord (ofNat_toNat_word (hy ([] ++ [0] ++ (List.range 8).map (1 + ·))))
  | ping id =>
    have hping : ((m.read 1 2).run ([] ++ [0])).1 = id :=
      m.read_operand type [] (by rw [hbytes, List.append_nil]; rfl) rfl hid _
    show ClientOp.ping ((m.read 1 2).run ([] ++ [0])).1 = _
    rw [hping]
    rfl

/-! ## The whole way -/

/-- The client reads the reply to a PING as its id. -/
theorem reads_pingReply {id : ℕ} (h : id < 65536) :
    Client.readReceived.run (pingReply id).written = some (.ping id, []) := by
  have htype : Reads (Client.readInt 1) (bytes 1 DataType.ping.toNat) DataType.ping.toNat :=
    reads_readInt (by decide)
  have hread : Reads Client.readReceived
      (bytes 1 DataType.ping.toNat ++ bytes 2 id) (.ping id) :=
    htype.bind (reads_readInt h).map
  exact hread []

/-- The game after the client's command: the operation of the command's name, with the operands that
are sent. -/
def Client.Command.effect {D F : Type} [Zero D] [One D] [Zero F] [NatCast D] [IntCast D]
    [OfScientific D] [Add D] [Mul D] [LE D] [DecidableLE D] [Trig F D] [OfWord 64 D] [OfWord 32 F]
    (ρ : Rehash ℕ) (draw : ℤ × ℤ) (g : Game D F) (c : ℕ) : Client.Command → Game D F
  | .spawn => spawnPlayer ρ g c draw
  | .shoot => shootProjectile ρ g c
  | .changeOrientation angle => changePlayerOrientation ρ g c (ofWord angle)
  | .changeMovementDirection velocityX velocityY =>
    changePlayerMovement ρ g c (ofWord velocityX) (ofWord velocityY)
  | .ping _ => g

/-- A PING is answered by one message, which the client reads as its id. Nothing else is answered. -/
def Client.Command.Answered {D : Type} [NatCast D] [ToWord 64 D] (c : ℕ)
    (replies : List (Outgoing D × ℕ)) : Client.Command → Prop
  | .ping id => ∃ reply, replies = [(reply, c)] ∧
    Client.readReceived.run reply.buffer.written = some (.ping id, [])
  | _ => replies = []

variable {D F : Type} [Zero D] [One D] [Zero F] [NatCast D] [IntCast D] [OfScientific D] [Add D]
  [Mul D] [LE D] [DecidableLE D] [Trig F D] [OfWord 64 D] [OfWord 32 F] [ToWord 64 D]

/-- A MESSAGE of the client is handled as the command. -/
def HandledAs (D F : Type) [Zero D] [One D] [Zero F] [NatCast D] [IntCast D] [OfScientific D]
    [Add D] [Mul D] [LE D] [DecidableLE D] [Trig F D] [OfWord 64 D] [OfWord 32 F] [ToWord 64 D]
    (c : ℕ) (m : Message) (cmd : Client.Command) : Prop :=
  ∀ (ρ : Rehash ℕ) (draw : ℤ × ℤ) (g : Game D F),
    let handled := ((handleMessage ρ draw g (messageEvent c m)).run []).1
    handled.1 = cmd.effect ρ draw g c ∧ cmd.Answered c handled.2

omit [ToWord 64 D] in
theorem run_handleMessage_body {m : Message} {cmd : Client.Command} (hbytes : m.bytes = cmd.body)
    (hid : cmd.IdFits) (ρ : Rehash ℕ) (draw : ℤ × ℤ) (g : Game D F) (c : ℕ) :
    ((handleMessage ρ draw g (messageEvent c m)).run []).1 = cmd.op.apply ρ draw g c := by
  unfold messageEvent
  rw [run_handleMessage_message, Message.readOp_body hbytes hid]

theorem handledAs_of_bytes {m : Message} {cmd : Client.Command} (hbytes : m.bytes = cmd.body)
    (hid : cmd.IdFits) (c : ℕ) : HandledAs D F c m cmd := by
  intro ρ draw g
  dsimp only
  rw [run_handleMessage_body hbytes hid]
  cases cmd with
  | spawn | shoot | changeOrientation _ | changeMovementDirection _ _ => exact ⟨rfl, rfl⟩
  | ping id => exact ⟨rfl, .pingReply id, rfl, reads_pingReply hid⟩

/-- **Commands.** The bytes of any sequence of commands are received as the life of a client whose
messages are handled as these commands, in order. -/
theorem commands_dispatched (self : Client.Sender) (hconnected : self.connected = true)
    (cmds : List Client.Command) (hids : ∀ cmd ∈ cmds, cmd.IdFits) :
    ∃ sent, Client.sendCommands self cmds = some sent ∧ ∀ c s,
      Lts.Reach StartReceiving.step callsSucceed (.initial c sent) s →
        (∃ t, Lts.Reach StartReceiving.step callsSucceed s t ∧ t.thread.call = .returned) ∧
        (s.thread.call = .returned → ∃ ms, s.pushed = clientHistory c ms ∧
          List.Forall₂ (HandledAs D F c) ms cmds) := by
  refine ⟨_, Client.sendCommands_eq hids hconnected, fun c s hs => ?_⟩
  have hlength : ∀ body ∈ cmds.map Client.Command.body, body.length < 18 := by
    intro body hbody
    obtain ⟨cmd, -, rfl⟩ := List.mem_map.mp hbody
    exact cmd.length_body_lt
  have hframes : completeFrames (stream (cmds.map Client.Command.body)) =
      cmds.map Client.Command.body :=
    completeFrames_stream fun body hbody => (hlength body hbody).trans (by decide)
  obtain ⟨hreturns, hreceived⟩ := StartReceiving.pushed_all_of_reach
    (by rw [hframes]; exact fun body hbody => (hlength body hbody).trans (by decide)) hs
  refine ⟨hreturns, fun hcall => ?_⟩
  obtain ⟨ms, hbytes, hpushed⟩ := hreceived hcall
  refine ⟨ms, hpushed, ?_⟩
  have hpairs : List.Forall₂ (· = ·) (ms.map Message.bytes) (cmds.map Client.Command.body) := by
    rw [List.forall₂_eq_eq_eq, hbytes, hframes]
  rw [List.forall₂_map_left_iff, List.forall₂_map_right_iff, List.forall₂_iff_zip] at hpairs
  refine List.forall₂_iff_zip.mpr ⟨hpairs.1, fun hmem => ?_⟩
  exact handledAs_of_bytes (hpairs.2 hmem) (hids _ (List.of_mem_zip hmem).2) c

/-- A client that spawns, turns, moves, shoots and pings with the largest id. -/
def session : List Client.Command :=
  [.spawn, .changeOrientation 0x3FC90FDB, .changeMovementDirection 0x3FF0000000000000 0, .shoot,
    .ping 65535]

theorem commands_dispatched_session :
    ∃ sent, Client.sendCommands ⟨true, 0, ⟨0, 0⟩, 0⟩ session = some sent ∧
      ∃ t ms, Lts.Reach StartReceiving.step callsSucceed (.initial 4 sent) t ∧
        t.pushed = clientHistory 4 ms ∧ List.Forall₂ (HandledAs ℝ ℝ 4) ms session := by
  have hids : ∀ cmd ∈ session, cmd.IdFits := by
    simp [session, Client.Command.IdFits]
  obtain ⟨sent, hsent, hreceived⟩ := commands_dispatched (D := ℝ) (F := ℝ)
    ⟨true, 0, ⟨0, 0⟩, 0⟩ rfl session hids
  obtain ⟨t, ht, hcall⟩ := (hreceived 4 _ .refl).1
  obtain ⟨ms, hpushed, hhandled⟩ := (hreceived 4 t ht).2 hcall
  exact ⟨sent, hsent, t, ms, ht, hpushed, hhandled⟩

end PRShooter
