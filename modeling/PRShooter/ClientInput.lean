import PRShooter.Commands
import PRShooter.Lts

/-!
# The keyboard of a client

The loop of `start_game` in `Client/client.py`: the events of pygame, the angle to the mouse pointer
that `receive_message` sends, and the PINGs. `change_movement` keeps a flag for each direction and
sends the velocity `directionToVelocity` has for the flags (`Follows`).

Drawing is left out, and of `receive_message` everything but the angle.
-/

namespace PRShooter

open LittleEndian Framing

namespace Client

/-! ## Directions -/

/-- `Direction`, a flag for each side. -/
abbrev Direction := BitVec 4

namespace Direction

def left : Direction := 1
def up : Direction := 2
def right : Direction := 4
def down : Direction := 8
def none : Direction := left ^^^ left

end Direction

/-- `add_flag`. -/
def addFlag (a b : Direction) : Direction := a ||| b

/-- `remove_flag`. -/
def removeFlag (a b : Direction) : Direction := a &&& ~~~b

/-- What `struct.pack('d', v)` writes for the numbers in `directionToVelocity`. -/
inductive Speed where
  | zero
  | one
  | minusOne
  /-- `math.sqrt(2)/2`. -/
  | diagonal
  | minusDiagonal
  deriving DecidableEq

def Speed.word : Speed → BitVec 64
  | zero => 0
  | one => 0x3FF0000000000000
  | minusOne => 0xBFF0000000000000
  | diagonal => 0x3FE6A09E667F3BCD
  | minusDiagonal => 0xBFE6A09E667F3BCD

open Direction Speed in
/-- `directionToVelocity`. -/
def directionToVelocity : List (Direction × Speed × Speed) :=
  [(none, zero, zero), (up, zero, minusOne), (left, minusOne, zero), (right, one, zero),
    (down, zero, one),
    (left ||| up, minusDiagonal, minusDiagonal), (right ||| up, diagonal, minusDiagonal),
    (right ||| down, diagonal, diagonal), (left ||| down, minusDiagonal, diagonal),
    (left ||| right, zero, zero), (up ||| down, zero, zero),
    (up ||| right ||| left, zero, minusOne), (down ||| left ||| right, zero, one),
    (down ||| up ||| right, one, zero), (down ||| up ||| left, minusOne, zero),
    (up ||| down ||| left ||| right, zero, zero)]

/-! ## Events -/

/-- A key of the keyboard. -/
inductive Key where
  | left | a | right | d | up | w | down | s
  | space | tab | escape
  | other
  deriving DecidableEq

/-- An event of `pygame.event.get()`. -/
inductive Event where
  | quit
  | mouseButtonDown (button : ℕ)
  | videoResize (w h : ℕ)
  | keyDown (key : Key)
  | keyUp (key : Key)
  | other

/-- Where the loop of `start_game` is. -/
inductive LoopPoint where
  /-- Before the test of `while self.run`. -/
  | head
  /-- In `event_handler`. -/
  | events
  /-- In the loop around `receive_message`. -/
  | receiving
  | finished
  deriving DecidableEq

/-- The attributes of the client that its loop reads and writes, and the bytes it has sent. -/
structure ClientLoop where
  point : LoopPoint
  run : Bool
  connected : Bool
  direction : Direction
  angle : BitVec 32
  lastPing : ℤ
  displayScores : Bool
  displaySize : ℕ × ℕ
  sent : List UInt8

/-- What the loop does next. -/
inductive LoopLabel where
  /-- The test of `while self.run`. -/
  | turn
  | event (e : Event)
  /-- There are no more events. -/
  | eventsHandled
  /-- A game state has come in which `calculateOrientationAngle` is not `self.angle`. -/
  | aim (angle : BitVec 32)
  /-- The picture is drawn, and a PING is sent if its period is over. -/
  | draw (pingDue : Bool)

namespace ClientLoop

/-- The client when `start_game` begins. -/
def start (connected : Bool) : ClientLoop :=
  { point := .head, run := true, connected, direction := .none, angle := 0, lastPing := 0,
    displayScores := false, displaySize := (800, 600), sent := [] }

/-- `send_message`. Looking up the velocity raises for no direction (`lookup_direction`), so it may
be done for every type of message. -/
def sendMessage (self : ClientLoop) (dataType : DataType) : Option ClientLoop := do
  let (vx, vy) ← directionToVelocity.lookup self.direction
  let (sent, sender) ←
    Client.sendMessage ⟨self.connected, self.angle, ⟨vx.word, vy.word⟩, self.lastPing⟩ dataType
  return { self with lastPing := sender.lastPing, sent := self.sent ++ sent }

/-- `change_movement`. -/
def changeMovement (self : ClientLoop) (dir : Direction) (add : Bool) : Option ClientLoop :=
  let direction := if add then addFlag self.direction dir else removeFlag self.direction dir
  { self with direction }.sendMessage .changeMovementDirection

/-- `event_handler`, for one event. -/
def eventHandler (self : ClientLoop) : Event → Option ClientLoop
  | .quit => some { self with run := false }
  | .mouseButtonDown button => if button = 1 then self.sendMessage .shoot else some self
  | .videoResize w h => some { self with displaySize := (w, h) }
  | .keyDown key =>
    match key with
    | .left | .a => self.changeMovement .left true
    | .right | .d => self.changeMovement .right true
    | .up | .w => self.changeMovement .up true
    | .down | .s => self.changeMovement .down true
    | .space => self.sendMessage .spawn
    | .tab => some { self with displayScores := true }
    | .escape | .other => some self
  | .keyUp key =>
    match key with
    | .left | .a => self.changeMovement .left false
    | .right | .d => self.changeMovement .right false
    | .up | .w => self.changeMovement .up false
    | .down | .s => self.changeMovement .down false
    | .escape => some { self with run := false }
    | .tab => some { self with displayScores := false }
    | .space | .other => some self
  | .other => some self

/-- One step of the loop; an exception leaves no state behind. -/
def step (self : ClientLoop) : LoopLabel → Option ClientLoop
  | .turn =>
    if self.point = .head then
      some { self with point := if self.run then .events else .finished }
    else none
  | .event e => if self.point = .events then self.eventHandler e else none
  | .eventsHandled => if self.point = .events then some { self with point := .receiving } else none
  | .aim angle =>
    if self.point = .receiving ∧ self.connected = true then
      { self with angle }.sendMessage .changeOrientation
    else none
  | .draw pingDue =>
    if self.point = .receiving then
      let self := { self with point := .head }
      if pingDue then self.sendMessage .ping else some self
    else none

end ClientLoop

/-! ## What the flags say -/

/-- One of the four sides a key can stand for. -/
inductive Side where
  | left | up | right | down
  deriving DecidableEq

def Side.flag : Side → Direction
  | left => .left
  | up => .up
  | right => .right
  | down => .down

/-- The flag of the side is set. -/
def Direction.has (d : Direction) (side : Side) : Bool := d &&& side.flag != 0

theorem has_addFlag (d : Direction) (side side' : Side) :
    Direction.has (addFlag d side.flag) side' = (decide (side = side') || d.has side') := by
  revert d
  cases side <;> cases side' <;> decide

theorem has_removeFlag (d : Direction) (side side' : Side) :
    Direction.has (removeFlag d side.flag) side' = (!decide (side = side') && d.has side') := by
  revert d
  cases side <;> cases side' <;> decide

/-- The direction of a velocity of the table. -/
def Speed.sign : Speed → ℤ
  | zero => 0
  | one | diagonal => 1
  | minusOne | minusDiagonal => -1

/-- The velocity is one of the compass or none, with the right share in both coordinates. -/
def Speed.IsUnit : Speed × Speed → Prop
  | (zero, zero) | (zero, one) | (zero, minusOne) | (one, zero) | (minusOne, zero) => True
  | (diagonal, diagonal) | (diagonal, minusDiagonal) => True
  | (minusDiagonal, diagonal) | (minusDiagonal, minusDiagonal) => True
  | _ => False

instance : DecidablePred Speed.IsUnit := fun v => by
  unfold Speed.IsUnit
  split <;> infer_instance

/-- The side a key stands for. -/
def Key.side : Key → Option Side
  | .left | .a => some .left
  | .right | .d => some .right
  | .up | .w => some .up
  | .down | .s => some .down
  | .space | .tab | .escape | .other => none

/-- The last of the values some elements of a list have, or the one before the list. -/
def lastOf {α β : Type} (f : α → Option β) (before : β) (l : List α) : β :=
  (l.filterMap f).getLast?.getD before

@[simp] theorem lastOf_concat {α β : Type} (f : α → Option β) (before : β) (l : List α) (a : α) :
    lastOf f before (l ++ [a]) = (f a).getD (lastOf f before l) := by
  unfold lastOf
  rw [List.filterMap_append]
  cases ha : f a <;> simp [ha]

/-- A key of the side goes down or up. -/
def LoopLabel.turns (side : Side) : LoopLabel → Option Bool
  | .event (.keyDown key) => if key.side = some side then some true else none
  | .event (.keyUp key) => if key.side = some side then some false else none
  | _ => none

/-- The last key of the side that went down or up went down. -/
def held (side : Side) (ls : List LoopLabel) : Bool := lastOf (LoopLabel.turns side) false ls

/-! ## What has been sent -/

/-- The velocity a command asks for. -/
def Command.movement : Command → Option (BitVec 64 × BitVec 64)
  | changeMovementDirection velocityX velocityY => some (velocityX, velocityY)
  | spawn | shoot | changeOrientation _ | ping _ => none

/-- The angle a command asks for. -/
def Command.orientation : Command → Option (BitVec 32)
  | changeOrientation angle => some angle
  | spawn | shoot | changeMovementDirection _ _ | ping _ => none

/-- The types a client sends. -/
def Sendable : DataType → Prop
  | .spawn | .shoot | .changeOrientation | .changeMovementDirection | .ping => True
  | _ => False

/-- Each call sends one command, with the operands the client has. -/
theorem sendMessage_frame {self self' : Sender} {dataType : DataType} {sent : List UInt8}
    (hconnected : self.connected = true) (hsendable : Sendable dataType)
    (h : Client.sendMessage self dataType = some (sent, self')) :
    ∃ cmd : Command, cmd.IdFits ∧ sent = frame cmd.body ∧
      cmd.movement = (if dataType = .changeMovementDirection then
        some (self.velocity.x, self.velocity.y) else none) ∧
      cmd.orientation = (if dataType = .changeOrientation then some self.angle else none) := by
  -- the command whose operands the client has
  have hframe : ∀ cmd : Command, cmd.IdFits → cmd.operands self = self → cmd.dataType = dataType →
      sent = frame cmd.body := by
    intro cmd hid hself htype
    obtain ⟨self'', hsent, -⟩ := sendMessage_operands hconnected hid
    rw [hself, htype, h] at hsent
    exact (Prod.mk.inj (Option.some.inj hsent)).1
  cases dataType with
  | spawn => exact ⟨.spawn, trivial, hframe .spawn trivial rfl rfl, rfl, rfl⟩
  | shoot => exact ⟨.shoot, trivial, hframe .shoot trivial rfl rfl, rfl, rfl⟩
  | changeOrientation =>
    exact ⟨.changeOrientation self.angle, trivial, hframe _ trivial rfl rfl, rfl, rfl⟩
  | changeMovementDirection =>
    exact ⟨.changeMovementDirection self.velocity.x self.velocity.y, trivial,
      hframe _ trivial rfl rfl, rfl, rfl⟩
  | ping =>
    -- `to_bytes` has not raised
    have hfits : 0 ≤ self.lastPing + 1 ∧ self.lastPing + 1 < 65536 := by
      by_contra hraised
      simp [Client.sendMessage, hconnected, toBytes, hraised] at h
    have hid : (Command.ping (self.lastPing + 1).toNat).IdFits := by
      show (self.lastPing + 1).toNat < 65536
      omega
    refine ⟨_, hid, hframe _ hid ?_ rfl, rfl, rfl⟩
    have hlast : ((self.lastPing + 1).toNat : ℤ) - 1 = self.lastPing := by omega
    simp only [Command.operands, hlast]
  | welcomeMessage | gameMap | gameState | other => exact hsendable.elim

/-! ## The client follows its keys -/

/-- What a connected client has sent, and what its attributes have to do with it. -/
structure Sends (s : ClientLoop) (cmds : List Command) : Prop where
  connected : s.connected = true
  fits : ∀ cmd ∈ cmds, cmd.IdFits
  sent : s.sent = stream (cmds.map Command.body)
  /-- The velocity last asked for is that of the flags. -/
  movement : ∀ vx vy : Speed, directionToVelocity.lookup s.direction = some (vx, vy) →
    lastOf Command.movement (0, 0) cmds = (vx.word, vy.word)
  orientation : lastOf Command.orientation 0 cmds = s.angle
  moves : ∀ cmd ∈ cmds, ∀ v, cmd.movement = some v →
    ∃ d vx vy, directionToVelocity.lookup d = some (vx, vy) ∧ v = (vx.word, vy.word)

namespace ClientLoop

variable {s s' t : ClientLoop} {cmds : List Command}

/-- A call of `send_message` after the flags or the angle have changed: the message that carries
what has changed puts it right. -/
theorem Sends.sendMessage {dataType : DataType} (h : Sends s cmds)
    (hsend : s'.sendMessage dataType = some t) (hsendable : Sendable dataType)
    (hconnected : s'.connected = true) (hsent : s'.sent = s.sent)
    (hdirection : dataType ≠ .changeMovementDirection → s'.direction = s.direction)
    (hangle : dataType ≠ .changeOrientation → s'.angle = s.angle) :
    t.direction = s'.direction ∧ ∃ cmds', Sends t cmds' := by
  unfold ClientLoop.sendMessage at hsend
  obtain ⟨⟨vx, vy⟩, hv, hsend⟩ := Option.bind_eq_some_iff.mp hsend
  obtain ⟨⟨bytes, sender⟩, hbytes, hsend⟩ := Option.bind_eq_some_iff.mp hsend
  obtain rfl := Option.some.inj hsend
  obtain ⟨cmd, hid, rfl, hmovement, horientation⟩ :=
    sendMessage_frame hconnected hsendable hbytes
  refine ⟨rfl, cmds ++ [cmd], ⟨hconnected, ?_, ?_, ?_, ?_, ?_⟩⟩
  · intro cmd' hcmd'
    rcases List.mem_append.mp hcmd' with hold | hnew
    · exact h.fits cmd' hold
    · exact List.mem_singleton.mp hnew ▸ hid
  · show s'.sent ++ frame cmd.body = _
    rw [hsent, h.sent]
    simp [stream]
  · intro vx' vy' hv'
    obtain ⟨rfl, rfl⟩ := Prod.mk.inj (Option.some.inj (hv.symm.trans hv'))
    rw [lastOf_concat, hmovement]
    split_ifs with htype
    · rfl
    · exact h.movement vx vy (hdirection htype ▸ hv)
  · rw [lastOf_concat, horientation]
    split_ifs with htype
    · rfl
    · exact h.orientation.trans (hangle htype).symm
  · intro cmd' hcmd' v hv'
    rcases List.mem_append.mp hcmd' with hold | hnew
    · exact h.moves cmd' hold v hv'
    · obtain rfl := List.mem_singleton.mp hnew
      rw [hmovement] at hv'
      split_ifs at hv'
      exact ⟨s'.direction, vx, vy, hv, (Option.some.inj hv').symm⟩

/-- What the loop has to do with the labels it has taken. -/
structure Follows (ls : List LoopLabel) (s : ClientLoop) : Prop where
  flags : ∀ side, s.direction.has side = held side ls
  sends : ∃ cmds, Sends s cmds

/-- A step that turns no flag and sends nothing. -/
theorem Follows.quiet {ls : List LoopLabel} {l : LoopLabel} (h : Follows ls s)
    (hturns : ∀ side, l.turns side = none) (hconnected : t.connected = s.connected)
    (hdirection : t.direction = s.direction) (hangle : t.angle = s.angle)
    (hsent : t.sent = s.sent) : Follows (ls ++ [l]) t := by
  obtain ⟨cmds, hsends⟩ := h.sends
  refine ⟨fun side => ?_, cmds, ⟨hconnected.trans hsends.connected, hsends.fits,
    hsent.trans hsends.sent, ?_, hsends.orientation.trans hangle.symm, hsends.moves⟩⟩
  · rw [hdirection, h.flags, held, held, lastOf_concat, hturns]
    rfl
  · rw [hdirection]
    exact hsends.movement

/-- A step that turns no flag and sends one message. -/
theorem Follows.send {ls : List LoopLabel} {l : LoopLabel} {dataType : DataType} (h : Follows ls s)
    (hsend : s'.sendMessage dataType = some t) (hsendable : Sendable dataType)
    (hturns : ∀ side, l.turns side = none) (hconnected : s'.connected = s.connected)
    (hdirection : s'.direction = s.direction) (hsent : s'.sent = s.sent)
    (hangle : dataType ≠ .changeOrientation → s'.angle = s.angle) : Follows (ls ++ [l]) t := by
  obtain ⟨cmds, hsends⟩ := h.sends
  obtain ⟨hkept, hsends'⟩ := Sends.sendMessage hsends hsend hsendable
    (hconnected.trans hsends.connected) hsent (fun _ => hdirection) hangle
  refine ⟨fun side => ?_, hsends'⟩
  rw [hkept, hdirection, h.flags, held, held, lastOf_concat, hturns]
  rfl

/-- `change_movement` for a key of a side. -/
theorem Follows.changeMovement {ls : List LoopLabel} {l : LoopLabel} {add : Bool}
    (h : Follows ls s) (side : Side) (hsend : s.changeMovement side.flag add = some t)
    (hturns : ∀ side', l.turns side' = if side = side' then some add else none) :
    Follows (ls ++ [l]) t := by
  obtain ⟨cmds, hsends⟩ := h.sends
  unfold ClientLoop.changeMovement at hsend
  obtain ⟨hkept, hsends'⟩ := Sends.sendMessage hsends hsend trivial hsends.connected rfl
    (fun hne => absurd rfl hne) fun _ => rfl
  refine ⟨fun side' => ?_, hsends'⟩
  rw [hkept, held, lastOf_concat, hturns]
  have hflag : s.direction.has side' = held side' ls := h.flags side'
  cases add with
  | true =>
    show Direction.has (addFlag s.direction side.flag) side' = _
    rw [has_addFlag, hflag]
    by_cases hside : side = side' <;> simp [hside, held]
  | false =>
    show Direction.has (removeFlag s.direction side.flag) side' = _
    rw [has_removeFlag, hflag]
    by_cases hside : side = side' <;> simp [hside, held]

/-- One event of pygame. -/
theorem Follows.eventHandler {ls : List LoopLabel} {e : Event} (h : Follows ls s)
    (hstep : s.eventHandler e = some t) : Follows (ls ++ [.event e]) t := by
  have hquiet : ∀ u, s.eventHandler e = some u → u.direction = s.direction →
      u.connected = s.connected → u.angle = s.angle → u.sent = s.sent →
      (∀ side, (LoopLabel.event e).turns side = none) → Follows (ls ++ [.event e]) t := by
    intro u hu hdirection hconnected hangle hsent hturns
    obtain rfl := Option.some.inj (hstep.symm.trans hu)
    exact h.quiet hturns hconnected hdirection hangle hsent
  cases e with
  | quit | videoResize | other => exact hquiet _ rfl rfl rfl rfl rfl fun _ => rfl
  | mouseButtonDown button =>
    simp only [ClientLoop.eventHandler] at hstep
    split_ifs at hstep with hbutton
    · exact h.send hstep trivial (fun _ => rfl) rfl rfl rfl fun _ => rfl
    · exact hquiet s (if_neg hbutton) rfl rfl rfl rfl fun _ => rfl
  | keyDown key =>
    cases key with
    | left | a => exact h.changeMovement .left hstep fun side' => by cases side' <;> rfl
    | right | d => exact h.changeMovement .right hstep fun side' => by cases side' <;> rfl
    | up | w => exact h.changeMovement .up hstep fun side' => by cases side' <;> rfl
    | down | s => exact h.changeMovement .down hstep fun side' => by cases side' <;> rfl
    | space => exact h.send hstep trivial (fun _ => rfl) rfl rfl rfl fun _ => rfl
    | tab | escape | other => exact hquiet _ rfl rfl rfl rfl rfl fun _ => rfl
  | keyUp key =>
    cases key with
    | left | a => exact h.changeMovement .left hstep fun side' => by cases side' <;> rfl
    | right | d => exact h.changeMovement .right hstep fun side' => by cases side' <;> rfl
    | up | w => exact h.changeMovement .up hstep fun side' => by cases side' <;> rfl
    | down | s => exact h.changeMovement .down hstep fun side' => by cases side' <;> rfl
    | space | tab | escape | other => exact hquiet _ rfl rfl rfl rfl rfl fun _ => rfl

theorem Follows.step {ls : List LoopLabel} {l : LoopLabel} (h : Follows ls s)
    (hstep : s.step l = some t) : Follows (ls ++ [l]) t := by
  cases l with
  | turn | eventsHandled =>
    simp only [ClientLoop.step] at hstep
    split at hstep
    case isFalse => cases hstep
    obtain rfl := Option.some.inj hstep
    exact h.quiet (fun _ => rfl) rfl rfl rfl rfl
  | event e =>
    simp only [ClientLoop.step] at hstep
    split_ifs at hstep
    exact h.eventHandler hstep
  | aim angle =>
    simp only [ClientLoop.step] at hstep
    split_ifs at hstep
    exact h.send hstep trivial (fun _ => rfl) rfl rfl rfl fun hne => absurd rfl hne
  | draw pingDue =>
    simp only [ClientLoop.step] at hstep
    split_ifs at hstep
    · exact h.send hstep trivial (fun _ => rfl) rfl rfl rfl fun _ => rfl
    · obtain rfl := Option.some.inj hstep
      exact h.quiet (fun _ => rfl) rfl rfl rfl rfl

end ClientLoop

end Client

end PRShooter
