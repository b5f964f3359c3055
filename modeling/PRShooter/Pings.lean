import PRShooter.Border
import PRShooter.Commands
import PRShooter.Lts

/-!
# PINGs and their echoes

A client that sends PINGs among its other commands, the host that answers them, and the client that
computes a latency from each answer. Messages are delivered whole and in order, after any delay: how
the bytes of a frame are cut is left to the modules on framing. Beside its payload each message on
its way keeps which PING it is or answers, which no step looks at.

The id is a Python integer that is sent in two bytes, so the 65536th PING of a session raises an
exception; before that, ids and counts agree (`pings_counted`).
-/

set_option linter.unusedSectionVars false

namespace PRShooter

open LittleEndian Framing

namespace Pings

/-! ## The run of a client -/

/-- A message on its way, and the PING it is or answers: the first one is number 1. -/
structure Sent where
  payload : List UInt8
  ping : Option ℕ

/-- An echo the client has decoded: the PING it answers, the number of PINGs sent by then, and
`last_ping[0] - read_int(rest, 2)`. -/
structure Echo where
  ping : Option ℕ
  sent : ℕ
  difference : ℤ

/-- A client, the messages between it and the host, and what has happened. -/
structure State where
  client : Client.Sender
  /-- An exception has ended the client. -/
  raised : Bool
  toHost : List Sent
  toClient : List Sent
  /-- The number of PINGs sent. -/
  sent : ℕ
  /-- The payloads the host has handled, with the payloads of its replies. -/
  handled : List (List UInt8 × List (List UInt8))
  echoes : List Echo

/-- The client after its constructor. -/
def initial (connected : Bool) : State :=
  { client := ⟨connected, 0, ⟨0, 0⟩, 0⟩, raised := false, toHost := [], toClient := [], sent := 0,
    handled := [], echoes := [] }

/-- What happens next. -/
inductive Label (D F : Type) where
  /-- The client calls `send_message`, with these attributes. -/
  | send (angle : BitVec 32) (velocity : Point (BitVec 64)) (dataType : DataType)
  /-- The host handles the next message of the client in the game it has then. -/
  | handle (ρ : Rehash ℕ) (draw : ℤ × ℤ) (g : Game D F) (m : Message)
  /-- The host sends the client something else. -/
  | other (payload : List UInt8)
  /-- The client calls `receive_message` and there is a message. -/
  | receive

variable {D F : Type} [Zero D] [One D] [Zero F] [NatCast D] [IntCast D] [OfScientific D] [Add D]
  [Mul D] [LE D] [DecidableLE D] [Trig F D] [OfWord 64 D] [OfWord 32 F] [ToWord 64 D]

/-- The payload begins with the type of a PING. -/
def IsPing (payload : List UInt8) : Prop := payload.head? = some (UInt8.ofNat DataType.ping.toNat)

instance : DecidablePred IsPing := fun _ => inferInstanceAs (Decidable (_ = _))

/-- The bytes of one call of `send_message` on their way. -/
def sendBytes (s : State) (client : Client.Sender) (dataType : DataType) (bytes : List UInt8) :
    State :=
  let payloads := completeFrames bytes
  let sent := if dataType = .ping then s.sent + payloads.length else s.sent
  let ping := if dataType = .ping then some sent else none
  { s with client, sent, toHost := s.toHost ++ payloads.map (⟨·, ping⟩) }

/-- One call of `send_message` by the client, whose attributes are now `self`. -/
def sendMessage (s : State) (self : Client.Sender) (dataType : DataType) : State :=
  match Client.sendMessage self dataType with
  | none => { s with raised := true }
  | some (bytes, client) => sendBytes s client dataType bytes

/-- The payloads of the replies to a message of client `c`. -/
def replies (c : ℕ) (ρ : Rehash ℕ) (draw : ℤ × ℤ) (g : Game D F) (m : Message) :
    List (List UInt8) :=
  (((handleMessage ρ draw g (messageEvent c m)).run []).1.2.filter fun reply => reply.2 = c).map
    fun reply => reply.1.buffer.written

/-- The host handles the next message. -/
def handleNext (c : ℕ) (ρ : Rehash ℕ) (draw : ℤ × ℤ) (g : Game D F) (m : Message) (s : State) :
    Option State :=
  match s.toHost with
  | [] => none
  | p :: rest =>
    if m.bytes = p.payload then some { s with
      toHost := rest
      toClient := s.toClient ++ (replies c ρ draw g m).map (⟨·, p.ping⟩)
      handled := s.handled ++ [(p.payload, replies c ρ draw g m)] }
    else none

/-- `receive_message`, when there is a message. -/
def receiveMessage (s : State) : Option State :=
  match s.toClient with
  | [] => none
  | p :: rest =>
    match Client.readReceived.run p.payload with
    | some (.ping id, _) => some { s with
        toClient := rest
        echoes := s.echoes ++ [⟨p.ping, s.sent, s.client.lastPing - id⟩] }
    | _ => some { s with toClient := rest }

/-- One step; `c` is the id of the client. -/
def step (c : ℕ) (s : State) : Label D F → Option State
  | .send angle velocity dataType =>
    if s.raised then none else some (sendMessage s { s.client with angle, velocity } dataType)
  | .handle ρ draw g m => handleNext c ρ draw g m s
  | .other payload =>
    if IsPing payload then none else some { s with toClient := s.toClient ++ [⟨payload, none⟩] }
  | .receive => if s.raised then none else receiveMessage s

/-- No PING has raised an exception, the host has answered each PING with the id it received, and
each difference is the number of PINGs sent after the one that was echoed. -/
structure Good (s : State) : Prop where
  raised : s.raised = false
  handled : ∀ e ∈ s.handled, IsPing e.1 → e.2 = [e.1]
  echoes : ∀ e ∈ s.echoes, ∃ k ≤ e.sent, e.ping = some k ∧ e.difference = ((e.sent - k : ℕ) : ℤ)

/-- A PING is sent while the id of the last one is below 65535. -/
def Short (s : State) : Label D F → Prop
  | .send _ _ .ping => s.client.connected = true → s.client.lastPing < 65535
  | _ => True

/-! ## Messages -/

theorem completeFrames_frame {body : List UInt8} (h : body.length < 18) :
    completeFrames (frame body) = [body] := by
  rw [← stream_singleton, completeFrames_stream]
  intro b hb
  rw [List.mem_singleton.mp hb]
  exact h.trans (by decide)

/-- The number of the PING a command is: its id. -/
def pingOf : Client.Command → Option ℕ
  | .ping id => some id
  | _ => none

/-- A payload begins with the type of the command. -/
theorem isPing_body_iff (cmd : Client.Command) : IsPing cmd.body ↔ ∃ id, cmd = .ping id := by
  obtain ⟨operands, hbody⟩ := cmd.body_eq
  have hhead : cmd.body.head? = some (UInt8.ofNat cmd.dataType.toNat) := by
    rw [hbody]
    rfl
  unfold IsPing
  rw [hhead]
  cases cmd with
  | ping id => exact ⟨fun _ => ⟨id, rfl⟩, fun _ => rfl⟩
  | spawn | shoot | changeOrientation _ | changeMovementDirection _ _ =>
    refine ⟨fun h => ?_, ?_⟩
    · simp only [Client.Command.dataType] at h
      exact absurd h (by decide)
    · rintro ⟨id, hcmd⟩
      cases hcmd

theorem ofByte_eq_ping {b : UInt8} (h : DataType.ofByte b.toNat = .ping) :
    b = UInt8.ofNat DataType.ping.toNat := by
  apply UInt8.toNat.inj
  unfold DataType.ofByte at h
  split at h
  all_goals first | assumption | cases h

/-- Only a payload with the type of a PING is read as one. -/
theorem isPing_of_readReceived {payload rest : List UInt8} {id : ℕ}
    (h : Client.readReceived.run payload = some (.ping id, rest)) : IsPing payload := by
  cases payload with
  | nil => cases h
  | cons b bs =>
    have htype : (Client.readInt 1).run (b :: bs) = some (b.toNat, bs) := by
      show some (value [b], bs) = _
      rw [show value [b] = b.toNat by simp [value]]
    unfold Client.readReceived at h
    rw [StateT.run_bind, htype] at h
    cases hb : DataType.ofByte b.toNat with
    | ping => exact congrArg some (ofByte_eq_ping hb)
    | _ => simp [hb, Option.bind_eq_some_iff] at h

/-! ## `send_message` -/

/-- A PING is a frame with the next id. -/
theorem sendMessage_ping (self : Client.Sender) (hconnected : self.connected = true) {n : ℕ}
    (hn : self.lastPing = n) (hlt : n < 65535) :
    Client.sendMessage self .ping =
      some (frame (Client.Command.ping (n + 1)).body, { self with lastPing := (n + 1 : ℕ) }) := by
  have hnext : self.lastPing + 1 = ((n + 1 : ℕ) : ℤ) := by
    rw [hn]
    rfl
  have hid : Client.toBytes 2 ((n + 1 : ℕ) : ℤ) = some (bytes 2 (n + 1)) :=
    Client.toBytes_natCast (by omega)
  unfold Client.sendMessage
  rw [if_neg (by simp [hconnected]), Client.frame_of_length (n := 3) (by simp [Client.Command.body])]
  simp only [hnext, hid, Option.bind_eq_bind, Option.bind_some]
  rfl

/-- An id of more than two bytes raises an exception. -/
theorem sendMessage_ping_eq_none {self : Client.Sender} (hconnected : self.connected = true)
    (h : 65535 ≤ self.lastPing) : Client.sendMessage self .ping = none := by
  have hid : Client.toBytes 2 (self.lastPing + 1) = none := by
    unfold Client.toBytes
    rw [if_neg]
    rintro ⟨-, hlt⟩
    norm_num at hlt
    omega
  unfold Client.sendMessage
  rw [if_neg (by simp [hconnected])]
  simp only [hid, Option.bind_eq_bind, Option.bind_none]

theorem sendMessage_of_not_connected {self : Client.Sender} (h : self.connected = false)
    (dataType : DataType) : Client.sendMessage self dataType = some ([], self) := by
  unfold Client.sendMessage
  rw [if_pos h]

/-- What else is sent are the payloads of other commands. -/
def OtherCommand (payload : List UInt8) : Prop :=
  ∃ cmd : Client.Command, payload = cmd.body ∧ cmd.IdFits ∧ pingOf cmd = none

theorem otherCommand_of_mem {cmd : Client.Command} (hid : cmd.IdFits) (hping : pingOf cmd = none) :
    ∀ payload ∈ completeFrames (frame cmd.body), OtherCommand payload := by
  intro payload hpayload
  rw [completeFrames_frame cmd.length_body_lt, List.mem_singleton] at hpayload
  exact ⟨cmd, hpayload, hid, hping⟩

theorem completeFrames_nil : completeFrames [] = [] := completeFrames_of_truncated (by decide)

theorem sendMessage_other {self : Client.Sender} (hconnected : self.connected = true)
    {dataType : DataType} (hne : dataType ≠ .ping) :
    ∃ bytes, Client.sendMessage self dataType = some (bytes, self) ∧
      ∀ payload ∈ completeFrames bytes, OtherCommand payload := by
  unfold Client.sendMessage
  rw [if_neg (by simp [hconnected])]
  cases dataType with
  | ping => exact absurd rfl hne
  | spawn =>
    exact ⟨frame (Client.Command.body .spawn), rfl, otherCommand_of_mem trivial rfl⟩
  | shoot =>
    exact ⟨frame (Client.Command.body .shoot), rfl, otherCommand_of_mem trivial rfl⟩
  | changeOrientation =>
    refine ⟨frame (Client.Command.changeOrientation self.angle).body, ?_,
      otherCommand_of_mem trivial rfl⟩
    rw [Client.frame_of_length (n := 5) (by simp [Client.Command.body])]
    rfl
  | changeMovementDirection =>
    refine ⟨frame (Client.Command.changeMovementDirection self.velocity.x self.velocity.y).body, ?_,
      otherCommand_of_mem trivial rfl⟩
    rw [Client.frame_of_length (n := 17) (by simp [Client.Command.body])]
    rfl
  | welcomeMessage | gameMap | gameState | other =>
    refine ⟨[], rfl, ?_⟩
    rw [completeFrames_nil]
    intro payload hpayload
    cases hpayload

/-! ## The invariant -/

/-- A message to the host is a command, and a PING has its number as its id. -/
def ToHost (sent : ℕ) (p : Sent) : Prop :=
  ∃ cmd : Client.Command, p.payload = cmd.body ∧ cmd.IdFits ∧
    ∀ id, cmd = .ping id → p.ping = some id ∧ id ≤ sent

/-- A message to the client that is read as a PING repeats the payload of the one it answers. -/
def ToClient (sent : ℕ) (p : Sent) : Prop :=
  IsPing p.payload →
    ∃ id ≤ sent, id < 65536 ∧ p.ping = some id ∧ p.payload = (Client.Command.ping id).body

theorem ToHost.mono {sent sent' : ℕ} {p : Sent} (h : ToHost sent p) (hle : sent ≤ sent') :
    ToHost sent' p := by
  obtain ⟨cmd, hbody, hid, hping⟩ := h
  exact ⟨cmd, hbody, hid, fun id hcmd => ⟨(hping id hcmd).1, (hping id hcmd).2.trans hle⟩⟩

theorem ToClient.mono {sent sent' : ℕ} {p : Sent} (h : ToClient sent p) (hle : sent ≤ sent') :
    ToClient sent' p := by
  intro hping
  obtain ⟨id, hid, hrest⟩ := h hping
  exact ⟨id, hid.trans hle, hrest⟩

structure Inv (s : State) : Prop extends Good s where
  lastPing : s.client.lastPing = s.sent
  toHost : ∀ p ∈ s.toHost, ToHost s.sent p
  toClient : ∀ p ∈ s.toClient, ToClient s.sent p

theorem inv_initial (connected : Bool) : Inv (initial connected) where
  raised := rfl
  handled := by simp [initial]
  echoes := by simp [initial]
  lastPing := rfl
  toHost := by simp [initial]
  toClient := by simp [initial]

variable {s t : State} {c : ℕ}

/-- The bytes of a PING join the messages on their way with the next number. -/
theorem Inv.sendPing (h : Inv s) {client : Client.Sender}
    (hlast : client.lastPing = (s.sent + 1 : ℕ)) (hlt : s.sent + 1 < 65536) :
    Inv (sendBytes s client .ping (frame (Client.Command.ping (s.sent + 1)).body)) := by
  have hframes := completeFrames_frame (Client.Command.length_body_lt (.ping (s.sent + 1)))
  have hsent : sendBytes s client .ping (frame (Client.Command.ping (s.sent + 1)).body) =
      { s with
        client
        sent := s.sent + 1
        toHost := s.toHost
          ++ [⟨(Client.Command.ping (s.sent + 1)).body, some (s.sent + 1)⟩] } := by
    unfold sendBytes
    rw [hframes]
    rfl
  rw [hsent]
  refine ⟨⟨h.raised, h.handled, h.echoes⟩, hlast, fun p hp => ?_, fun p hp => ?_⟩
  · rcases List.mem_append.mp hp with hold | hnew
    · exact (h.toHost p hold).mono (by simp)
    · obtain rfl := List.mem_singleton.mp hnew
      refine ⟨.ping (s.sent + 1), rfl, hlt, fun id hid => ?_⟩
      obtain rfl := Client.Command.ping.inj hid
      exact ⟨rfl, le_refl _⟩
  · exact (h.toClient p hp).mono (by simp)

/-- The bytes of anything else leave the count alone. -/
theorem Inv.sendOther (h : Inv s) {client : Client.Sender} {bytes : List UInt8}
    {dataType : DataType} (hlast : client.lastPing = s.client.lastPing)
    (hother : ∀ payload ∈ completeFrames bytes, OtherCommand payload)
    (hne : dataType = .ping → completeFrames bytes = []) :
    Inv (sendBytes s client dataType bytes) := by
  have hcount : (sendBytes s client dataType bytes).sent = s.sent := by
    unfold sendBytes
    by_cases hping : dataType = .ping
    · simp [hping, hne hping]
    · simp [hping]
  refine ⟨⟨h.raised, h.handled, h.echoes⟩, ?_, ?_, ?_⟩ <;> rw [hcount]
  · exact hlast.trans h.lastPing
  · intro p hp
    rcases List.mem_append.mp hp with hold | hnew
    · exact h.toHost p hold
    · obtain ⟨payload, hpayload, rfl⟩ := List.mem_map.mp hnew
      obtain ⟨cmd, hbody, hid, hnone⟩ := hother payload hpayload
      refine ⟨cmd, hbody, hid, fun id hcmd => ?_⟩
      subst hcmd
      cases hnone
  · exact h.toClient

/-- The replies to a command: the payload of a PING, and nothing to any other. -/
theorem replies_of_command {m : Message} {cmd : Client.Command} (hbytes : m.bytes = cmd.body)
    (hid : cmd.IdFits) (ρ : Rehash ℕ) (draw : ℤ × ℤ) (g : Game D F) :
    replies c ρ draw g m = if IsPing cmd.body then [cmd.body] else [] := by
  unfold replies
  rw [run_handleMessage_body hbytes hid]
  cases cmd with
  | ping id =>
    rw [if_pos ((isPing_body_iff _).mpr ⟨id, rfl⟩)]
    simp only [Client.Command.op, ClientOp.apply, List.filter_cons, decide_true, if_true,
      List.filter_nil, List.map_cons, List.map_nil]
    rfl
  | spawn | shoot | changeOrientation _ | changeMovementDirection _ _ =>
    rw [if_neg (by simp [isPing_body_iff])]
    rfl

theorem Inv.handleNext (h : Inv s) {ρ : Rehash ℕ} {draw : ℤ × ℤ} {g : Game D F} {m : Message}
    (hstep : handleNext c ρ draw g m s = some t) : Inv t := by
  unfold Pings.handleNext at hstep
  split at hstep
  next => cases hstep
  next p rest hhost =>
    split_ifs at hstep with hbytes
    obtain rfl := Option.some.inj hstep
    obtain ⟨cmd, hbody, hid, hping⟩ := h.toHost p (hhost ▸ List.mem_cons_self)
    rw [replies_of_command (hbytes.trans hbody) hid, hbody]
    refine ⟨⟨h.raised, fun e he hisPing => ?_, h.echoes⟩, h.lastPing, fun q hq => ?_,
      fun q hq => ?_⟩
    · rcases List.mem_append.mp he with hold | hnew
      · exact h.handled e hold hisPing
      · obtain rfl := List.mem_singleton.mp hnew
        exact if_pos hisPing
    · exact h.toHost q (hhost ▸ List.mem_cons_of_mem p hq)
    · rcases List.mem_append.mp hq with hold | hnew
      · exact h.toClient q hold
      · intro hisPing
        obtain ⟨payload, hpayload, rfl⟩ := List.mem_map.mp hnew
        -- only a PING is answered, and the answer has its number
        split_ifs at hpayload with hcmd
        · obtain rfl := List.mem_singleton.mp hpayload
          obtain ⟨id, rfl⟩ := (isPing_body_iff cmd).mp hcmd
          obtain ⟨hnumber, hle⟩ := hping id rfl
          exact ⟨id, hle, hid, hnumber, rfl⟩
        · cases hpayload

theorem Inv.other (h : Inv s) {payload : List UInt8} (hother : ¬ IsPing payload) :
    Inv { s with toClient := s.toClient ++ [⟨payload, none⟩] } := by
  refine ⟨⟨h.raised, h.handled, h.echoes⟩, h.lastPing, h.toHost, fun p hp => ?_⟩
  rcases List.mem_append.mp hp with hold | hnew
  · exact h.toClient p hold
  · obtain rfl := List.mem_singleton.mp hnew
    exact fun hping => absurd hping hother

theorem Inv.receiveMessage (h : Inv s) (hstep : receiveMessage s = some t) : Inv t := by
  unfold Pings.receiveMessage at hstep
  split at hstep
  next => cases hstep
  next p rest hclient =>
    have hrest : ∀ q ∈ rest, ToClient s.sent q := fun q hq =>
      h.toClient q (hclient ▸ List.mem_cons_of_mem p hq)
    split at hstep
    next id left hread =>
      obtain rfl := Option.some.inj hstep
      -- what is read is the number of the PING that is echoed
      obtain ⟨k, hk, hlt, hping, hbody⟩ :=
        h.toClient p (hclient ▸ List.mem_cons_self) (isPing_of_readReceived hread)
      have hsame : id = k := by
        rw [hbody] at hread
        have hboth := hread.symm.trans (reads_pingReply hlt)
        simp only [Option.some.injEq, Prod.mk.injEq, Client.Received.ping.injEq] at hboth
        exact hboth.1
      refine ⟨⟨h.raised, h.handled, fun e he => ?_⟩, h.lastPing, h.toHost, hrest⟩
      rcases List.mem_append.mp he with hold | hnew
      · exact h.echoes e hold
      · obtain rfl := List.mem_singleton.mp hnew
        refine ⟨k, hk, hping, ?_⟩
        rw [h.lastPing, hsame]
        exact (Nat.cast_sub hk).symm
    next =>
      obtain rfl := Option.some.inj hstep
      exact ⟨⟨h.raised, h.handled, h.echoes⟩, h.lastPing, h.toHost, hrest⟩

theorem Inv.sendMessage (h : Inv s) (self : Client.Sender)
    (hlast : self.lastPing = s.client.lastPing) {dataType : DataType}
    (hshort : dataType = .ping → self.connected = true → self.lastPing < 65535) :
    Inv (sendMessage s self dataType) := by
  unfold Pings.sendMessage
  cases hconnected : self.connected with
  | false =>
    rw [sendMessage_of_not_connected hconnected]
    refine h.sendOther hlast ?_ fun _ => completeFrames_nil
    rw [completeFrames_nil]
    intro payload hpayload
    cases hpayload
  | true =>
    by_cases hping : dataType = .ping
    · subst hping
      have hlt := hshort rfl hconnected
      rw [hlast, h.lastPing] at hlt
      have hsent : s.sent < 65535 := by exact_mod_cast hlt
      rw [sendMessage_ping self hconnected (hlast.trans h.lastPing) hsent]
      exact h.sendPing rfl (by omega)
    · obtain ⟨bytes, hsend, hother⟩ := sendMessage_other hconnected hping
      rw [hsend]
      exact h.sendOther hlast hother fun h => absurd h hping

theorem sendMessage_eq {self client : Client.Sender} {bytes : List UInt8} {dataType : DataType}
    (h : Client.sendMessage self dataType = some (bytes, client)) :
    sendMessage s self dataType = sendBytes s client dataType bytes := by
  unfold sendMessage
  rw [h]

/-- A PING that is too late raises an exception. -/
theorem raised_sendMessage (s : State) (self : Client.Sender) (hconnected : self.connected = true)
    (h : 65535 ≤ self.lastPing) : (sendMessage s self .ping).raised = true := by
  unfold sendMessage
  rw [sendMessage_ping_eq_none hconnected h]

/-! ## Runs -/

theorem step_send (h : s.raised = false) (angle : BitVec 32) (velocity : Point (BitVec 64))
    (dataType : DataType) : step c s (.send angle velocity dataType : Label D F) =
      some (sendMessage s { s.client with angle, velocity } dataType) := by
  show (if s.raised then none else _) = _
  rw [h]
  rfl

theorem inv_step {l : Label D F} (h : Inv s) (hshort : Short s l) (hstep : step c s l = some t) :
    Inv t := by
  cases l with
  | send angle velocity dataType =>
    rw [step_send h.raised] at hstep
    obtain rfl := Option.some.inj hstep
    refine h.sendMessage { s.client with angle, velocity } rfl fun hping hconnected => ?_
    subst hping
    exact hshort hconnected
  | handle ρ draw g m => exact h.handleNext hstep
  | other payload =>
    have hsome : (if IsPing payload then none else some _) = some t := hstep
    split_ifs at hsome with hping
    obtain rfl := Option.some.inj hsome
    exact h.other hping
  | receive =>
    have hsome : (if s.raised then none else receiveMessage s) = some t := hstep
    rw [h.raised] at hsome
    exact h.receiveMessage hsome

theorem short_of_step {l : Label D F} (h : Inv s) (hstep : step c s l = some t)
    (hgood : Good t) : Short s l := by
  cases l with
  | handle ρ draw g m | other payload | receive => trivial
  | send angle velocity dataType =>
    cases dataType with
    | ping =>
      intro hconnected
      by_contra hlate
      rw [step_send h.raised] at hstep
      obtain rfl := Option.some.inj hstep
      have hraised := raised_sendMessage s { s.client with angle, velocity }
        hconnected (not_lt.mp hlate)
      exact absurd (hgood.raised.symm.trans hraised) (by decide)
    | _ => trivial

/-- **PINGs.** In every run no PING raises an exception, the host echoes the id of each, and the
difference used for the latency is the number of PINGs sent after the one that is echoed, in every
state if and only if each PING is sent while the last id is below 65535. -/
theorem pings_counted (c : ℕ) (connected : Bool) (ls : List (Label D F)) (t : State)
    (h : Lts.run (step c) ls (initial connected) = some t) :
    Lts.Always (step c) Good ls (initial connected) ↔
      Lts.Along (step c) Short ls (initial connected) :=
  Lts.always_iff_along_of_invariant (I := Inv) (fun _ hs => hs.toGood)
    (fun _ _ _ hs hshort hstep => inv_step hs hshort hstep)
    (fun _ _ _ hs hstep hgood => short_of_step hs hstep hgood) h (inv_initial connected)

/-! ## A session of PINGs -/

/-- A client that does not move sends a PING. -/
def pingLabel : Label ℝ ℝ := .send 0 ⟨0, 0⟩ .ping

/-- After `n` PINGs, none of which the host has handled yet. -/
def pinging (n : ℕ) : State :=
  { client := ⟨true, 0, ⟨0, 0⟩, n⟩, raised := false, toClient := [], sent := n, handled := [],
    echoes := []
    toHost := (List.range n).map fun i => ⟨(Client.Command.ping (i + 1)).body, some (i + 1)⟩ }

theorem step_pinging {n : ℕ} (hn : n < 65535) :
    step 0 (pinging n) pingLabel = some (pinging (n + 1)) := by
  have hframes := completeFrames_frame (Client.Command.length_body_lt (.ping (n + 1)))
  have hping : Client.sendMessage ⟨true, 0, ⟨0, 0⟩, n⟩ .ping
      = some (frame (Client.Command.ping (n + 1)).body, ⟨true, 0, ⟨0, 0⟩, (n + 1 : ℕ)⟩) :=
    sendMessage_ping ⟨true, 0, ⟨0, 0⟩, n⟩ rfl rfl hn
  refine (step_send rfl _ _ _).trans (congrArg some ((sendMessage_eq hping).trans ?_))
  simp only [sendBytes, hframes, pinging, List.range_succ, List.map_append, List.map_cons,
    List.map_nil, if_true, List.length_singleton]

theorem run_pings {n : ℕ} (hn : n ≤ 65535) :
    Lts.run (step 0) (List.replicate n pingLabel) (initial true) = some (pinging n) ∧
      Lts.Along (step 0) Short (List.replicate n pingLabel) (initial true) := by
  induction n with
  | zero => exact ⟨rfl, trivial⟩
  | succ n ih =>
    obtain ⟨hrun, halong⟩ := ih (by omega)
    have hstep := step_pinging (n := n) (by omega)
    have hshort : Short (pinging n) pingLabel := by
      intro _
      show (n : ℤ) < 65535
      exact_mod_cast hn
    rw [List.replicate_succ']
    refine ⟨?_, halong.append hrun (.cons hstep hshort trivial)⟩
    rw [Lts.run_append, hrun, Option.bind_some, Lts.run_cons, hstep]
    rfl

/-- The host echoes the first PING of a session when the last one has been sent. -/
def firstEcho : List (Label ℝ ℝ) :=
  [.handle Rehash.front (0, 0) (Game.initial squareMap) (.ofBytes (Client.Command.ping 1).body),
    .receive]

theorem run_firstEcho (n : ℕ) : ∃ t, Lts.run (step 0) firstEcho (pinging (n + 1)) = some t ∧
    t.echoes = [⟨some 1, n + 1, n⟩] := by
  have hreplies : replies 0 Rehash.front (0, 0) (Game.initial squareMap : Game ℝ ℝ)
      (.ofBytes (Client.Command.ping 1).body) = [(Client.Command.ping 1).body] := by
    have hbytes : (Message.ofBytes (Client.Command.ping 1).body).bytes
        = (Client.Command.ping 1).body := rfl
    rw [replies_of_command hbytes (by norm_num [Client.Command.IdFits])]
    exact if_pos ((isPing_body_iff _).mpr ⟨1, rfl⟩)
  have hread : Client.readReceived.run (Client.Command.ping 1).body = some (.ping 1, []) :=
    reads_pingReply (by norm_num)
  obtain ⟨rest, hhost⟩ : ∃ rest, (pinging (n + 1)).toHost
      = ⟨(Client.Command.ping 1).body, some 1⟩ :: rest := by
    simp [pinging, List.range_succ_eq_map]
  -- the host handles the first PING, and the client decodes the echo
  set handled : State := { pinging (n + 1) with
    toHost := rest
    toClient := [⟨(Client.Command.ping 1).body, some 1⟩]
    handled := [((Client.Command.ping 1).body, [(Client.Command.ping 1).body])] } with hhandled
  have hhandle : step 0 (pinging (n + 1)) (.handle Rehash.front (0, 0) (Game.initial squareMap)
      (.ofBytes (Client.Command.ping 1).body) : Label ℝ ℝ) = some handled := by
    show handleNext _ _ _ _ _ _ = _
    unfold handleNext
    rw [hhost]
    simp only [hreplies]
    exact if_pos rfl
  have hreceive : step 0 handled (.receive : Label ℝ ℝ)
      = some { handled with
        toClient := []
        echoes := [⟨some 1, n + 1, ((n + 1 : ℕ) : ℤ) - (1 : ℕ)⟩] } := by
    show receiveMessage handled = _
    unfold receiveMessage
    rw [hhandled]
    simp only [hread]
    rfl
  have hrun : Lts.run (step 0) firstEcho (pinging (n + 1)) = some { handled with
      toClient := []
      echoes := [⟨some 1, n + 1, ((n + 1 : ℕ) : ℤ) - (1 : ℕ)⟩] } := by
    rw [firstEcho, Lts.run_cons, hhandle, Option.bind_some, Lts.run_cons, hreceive]
    rfl
  refine ⟨_, hrun, ?_⟩
  have hdifference : ((n + 1 : ℕ) : ℤ) - (1 : ℕ) = n := by
    push_cast
    ring
  rw [hdifference]

/-- The largest number of PINGs of a session, the first of which is echoed at its end. -/
theorem pings_counted_session : ∃ t,
    Lts.run (step 0) (List.replicate 65535 pingLabel ++ firstEcho) (initial true) = some t ∧
      t.echoes = [⟨some 1, 65535, 65534⟩] ∧
      Lts.Always (step 0) Good (List.replicate 65535 pingLabel ++ firstEcho) (initial true) := by
  obtain ⟨hrun, halong⟩ := run_pings (le_refl 65535)
  obtain ⟨t, hecho, hechoes⟩ := run_firstEcho 65534
  have hsession : Lts.run (step 0) (List.replicate 65535 pingLabel ++ firstEcho) (initial true)
      = some t := by
    rw [Lts.run_append, hrun, Option.bind_some, hecho]
  refine ⟨t, hsession, hechoes.trans (by norm_num), ?_⟩
  exact (pings_counted 0 true _ t hsession).mpr
    (halong.append hrun ⟨trivial, fun _ _ => ⟨trivial, fun _ _ => trivial⟩⟩)

/-- One more PING ends the client. -/
theorem session_raises :
    ∃ t, Lts.run (step 0) (List.replicate 65536 pingLabel) (initial true) = some t ∧ ¬ Good t := by
  obtain ⟨hrun, -⟩ := run_pings (le_refl 65535)
  let self : Client.Sender := ⟨true, 0, ⟨0, 0⟩, (65535 : ℕ)⟩
  have hstep : step 0 (pinging 65535) pingLabel = some (sendMessage (pinging 65535) self .ping) :=
    step_send rfl _ _ _
  have hrun' : Lts.run (step 0) (List.replicate (65535 + 1) pingLabel) (initial true)
      = some (sendMessage (pinging 65535) self .ping) := by
    rw [List.replicate_succ', Lts.run_append, hrun, Option.bind_some, Lts.run_cons, hstep]
    rfl
  refine ⟨_, hrun', fun hgood => ?_⟩
  have hraised := raised_sendMessage (pinging 65535) self rfl (by norm_num)
  exact absurd (hgood.raised.symm.trans hraised) (by decide)

end Pings

end PRShooter
