import PRShooter.Roster
import PRShooter.UpdateTimer

/-!
# The threads of the host

`Game::run` with `updateThread`, `sendThread`, `receiveThread` and the destructor, one step for each
instruction that another thread could see: taking and releasing `update_mutex`, a change of the
game, a call of the server. The threads run once `run` has created all three; the clock, the taken
messages and the drawn points come with the labels. The debug statistics are left out.

`AtomicHost` is the host as the other modules see it: messages are handled, ticks done and states
serialized one at a time.
-/

set_option linter.unusedSectionVars false

namespace PRShooter

/-! ## Points of the threads -/

/-- A `Message` of the host: its buffer, named by how many were created before it, and what was
written to it. -/
structure OutgoingMessage (D : Type) where
  data : ℕ
  content : Outgoing D

/-- The threads that take `update_mutex`. -/
inductive GameThread where
  | update
  | send
  | receive
  deriving DecidableEq

/-- Where `updateThread` is. -/
inductive UpdatePoint where
  /-- At `while(stop.load() == false)`. -/
  | head (u : UpdateTimer.UpdateThread)
  /-- Before `update_mutex.lock()`. -/
  | lock (u : UpdateTimer.UpdateThread)
  /-- At the inner `while`. -/
  | loop (u : UpdateTimer.UpdateThread)
  /-- Between `updatePositions` and `checkCollisions`. -/
  | checkCollisions (u : UpdateTimer.UpdateThread)
  | finished

/-- Where `sendThread` is. -/
inductive SendPoint (D : Type) where
  /-- At `while(stop.load() == false)`. -/
  | head
  | lock
  | serializeGameState
  | unlock (gameState : OutgoingMessage D)
  | sendMessageToEveryone (gameState : OutgoingMessage D)
  | finished

/-- Where `receiveThread` is: at the head of its loop, in `takeMessage`, or in `handleMessage`. -/
inductive ReceivePoint (D : Type) where
  /-- At `while(stop.load() == false)`. -/
  | head
  | takeMessage
  | lock (m : IncomingMessage)
  /-- At the outer `switch`. -/
  | switch (m : IncomingMessage)
  | sendWelcomeMessage (clientId : ℕ)
  | serializeMap (clientId : ℕ)
  /-- At the `unlock` before the map is sent. -/
  | unlockMap (map : OutgoingMessage D) (clientId : ℕ)
  | sendMap (map : OutgoingMessage D) (clientId : ℕ)
  | sendPing (id clientId : ℕ)
  | unlock
  | finished

/-- Where the main thread is, from the loop of `run` to the end of `stopServer`. -/
inductive MainPoint where
  | sleeping
  | storeStop
  | joinReceive
  | joinSend
  | joinUpdate
  /-- In the destructor, before `stopServer`. -/
  | setStop
  /-- In `stopServer`, joining the threads of the server. -/
  | stopReceivingThreads
  | finished
  deriving DecidableEq

/-- The thread holds `update_mutex`. -/
def UpdatePoint.holds : UpdatePoint → Bool
  | .loop _ | .checkCollisions _ => true
  | _ => false

def SendPoint.holds {D : Type} : SendPoint D → Bool
  | .serializeGameState | .unlock _ => true
  | _ => false

def ReceivePoint.holds {D : Type} : ReceivePoint D → Bool
  | .switch _ | .sendWelcomeMessage _ | .serializeMap _ | .unlockMap _ _ | .sendPing _ _
  | .unlock => true
  | _ => false

/-- What the host asks of the server. -/
inductive HostCall (D : Type) where
  | sendTo (message : OutgoingMessage D) (clientId : ℕ)
  | sendToEveryone (message : OutgoingMessage D)
  | setStop
  | stopReceivingThreads

/-- The host: the game, the flags, where each thread is, how many buffers have been created, the
messages taken that are not EMPTY, and the calls of the server. -/
structure HostThreads (D F : Type) where
  game : Game D F
  updateMutex : Option GameThread
  stopSignal : Bool
  stop : Bool
  main : MainPoint
  update : UpdatePoint
  send : SendPoint D
  receive : ReceivePoint D
  created : ℕ
  taken : List IncomingMessage
  calls : List (HostCall D)

/-- A step of a thread, with what the clock, the server and the random draw give it, or the signal
handler. -/
inductive HostLabel where
  | interrupt
  | main
  | update (now later : ℤ) (ρ : Rehash ℕ)
  | send
  | receive (m : IncomingMessage) (ρ : Rehash ℕ) (draw : ℤ × ℤ)

variable {D F : Type} [Zero D] [One D] [Zero F] [NatCast D] [IntCast D] [OfScientific D] [Add D]
  [Sub D] [Mul D] [Div D] [Neg D] [LT D] [LE D] [DecidableLT D] [DecidableLE D] [HasSqrt D]

/-! ## Steps -/

/-- The random draw of `spawnPlayer` can end there, if the operation draws. -/
def ClientOp.CanDraw [ToInt D] (m : GameMap D) (draw : ℤ × ℤ) : ClientOp D F → Prop
  | .spawn => DrawAllowed m draw
  | _ => True

instance [ToInt D] (m : GameMap D) (draw : ℤ × ℤ) :
    (op : ClientOp D F) → Decidable (op.CanDraw m draw)
  | .spawn => inferInstanceAs (Decidable (DrawAllowed m draw))
  | .shoot | .changeOrientation _ | .changeMovementDirection _ _ | .ping _ | .unknown =>
    .isTrue trivial

/-- The operation in the payload of a MESSAGE. -/
def Message.op (D F : Type) [OfWord 64 D] [OfWord 32 F] (m : Message) : ClientOp D F :=
  ((m.readOp : Reading (ClientOp D F)).run []).1

namespace HostThreads

/-- The host when `run` has created its threads; the update thread has read the clock once. -/
def initial (m : GameMap D) (first : ℤ) : HostThreads D F :=
  { game := Game.initial m, updateMutex := none, stopSignal := false, stop := false,
    main := .sleeping, update := .head ⟨⟨first⟩, 0, 0⟩, send := .head, receive := .head,
    created := 0, taken := [], calls := [] }

/-- A `Message` with a buffer of its own. -/
def newMessage (h : HostThreads D F) (content : Outgoing D) : OutgoingMessage D :=
  ⟨h.created, content⟩

/-- One step of `Game::run` or the destructor. -/
def mainStep (h : HostThreads D F) : Option (HostThreads D F) :=
  match h.main with
  | .sleeping => some { h with main := if h.stopSignal then .storeStop else .sleeping }
  | .storeStop => some { h with stop := true, main := .joinReceive }
  | .joinReceive =>
    match h.receive with
    | .finished => some { h with main := .joinSend }
    | _ => none
  | .joinSend =>
    match h.send with
    | .finished => some { h with main := .joinUpdate }
    | _ => none
  | .joinUpdate =>
    match h.update with
    | .finished => some { h with main := .setStop }
    | _ => none
  -- `stopServer`: its joins wait for threads of the server, which are not part of this state
  | .setStop => some { h with main := .stopReceivingThreads, calls := h.calls ++ [.setStop] }
  | .stopReceivingThreads =>
    some { h with main := .finished, calls := h.calls ++ [.stopReceivingThreads] }
  | .finished => none

/-- One step of `updateThread`. -/
def updateStep (h : HostThreads D F) (now later : ℤ) (ρ : Rehash ℕ) : Option (HostThreads D F) :=
  match h.update with
  | .head u =>
    if h.stop then some { h with update := .finished }
    else
      let (duration, updateTimer) := u.updateTimer.restart now later
      let u := { u with updateTimer, accumulator := u.accumulator + duration }
      some { h with update := if u.accumulator > UpdateTimer.timestep then .lock u else .head u }
  | .lock u =>
    if h.updateMutex = none then some { h with updateMutex := some .update, update := .loop u }
    else none
  | .loop u =>
    if u.accumulator > UpdateTimer.timestep then
      some { h with game := updatePositions h.game, update := .checkCollisions u }
    else some { h with updateMutex := none, update := .head u }
  | .checkCollisions u =>
    (checkCollisions ρ h.game).map fun game =>
      { h with
        game
        update := .loop { u with
          accumulator := u.accumulator - UpdateTimer.timestep, ticks := u.ticks + 1 } }
  | .finished => none

/-- One step of `sendThread`. -/
def sendStep [ToWord 64 D] [ToWord 32 F] (h : HostThreads D F) : Option (HostThreads D F) :=
  match h.send with
  | .head => some { h with send := if h.stop then .finished else .lock }
  | .lock =>
    if h.updateMutex = none then
      some { h with updateMutex := some .send, send := .serializeGameState }
    else none
  | .serializeGameState =>
    some { h with
      send := .unlock (h.newMessage (.gameState (serializeGameState h.game)))
      created := h.created + 1 }
  | .unlock gameState =>
    some { h with updateMutex := none, send := .sendMessageToEveryone gameState }
  | .sendMessageToEveryone gameState =>
    some { h with send := .head, calls := h.calls ++ [.sendToEveryone gameState] }
  | .finished => none

/-- The `switch` of `handleMessage`, up to the first call of the server. -/
def switchStep [Trig F D] [ToInt D] [OfWord 64 D] [OfWord 32 F] (h : HostThreads D F)
    (m : IncomingMessage) (ρ : Rehash ℕ) (draw : ℤ × ℤ) : Option (HostThreads D F) :=
  match m.messageType with
  | .empty => some { h with receive := .unlock }
  | .newConnection =>
    some { h with
      game := createNewPlayer ρ h.game m.clientId
      receive := .sendWelcomeMessage m.clientId }
  | .lostConnection => some { h with game := deletePlayer h.game m.clientId, receive := .unlock }
  | .message =>
    match m.message.op D F with
    | .ping id => some { h with receive := .sendPing id m.clientId }
    | op =>
      if op.CanDraw h.game.gameMap draw then
        some { h with game := (op.apply ρ draw h.game m.clientId).1, receive := .unlock }
      else none

/-- One step of `receiveThread`. -/
def receiveStep [Trig F D] [ToInt D] [OfWord 64 D] [OfWord 32 F] (h : HostThreads D F)
    (m : IncomingMessage) (ρ : Rehash ℕ) (draw : ℤ × ℤ) : Option (HostThreads D F) :=
  match h.receive with
  | .head => some { h with receive := if h.stop then .finished else .takeMessage }
  | .takeMessage =>
    if m.messageType = .empty then some { h with receive := .head }
    else some { h with receive := .lock m, taken := h.taken ++ [m] }
  | .lock m =>
    if h.updateMutex = none then some { h with updateMutex := some .receive, receive := .switch m }
    else none
  | .switch m => h.switchStep m ρ draw
  | .sendWelcomeMessage clientId =>
    some { h with
      receive := .serializeMap clientId
      created := h.created + 1
      calls := h.calls ++ [.sendTo (h.newMessage (.welcome clientId)) clientId] }
  | .serializeMap clientId =>
    some { h with
      receive := .unlockMap (h.newMessage (.map h.game.gameMap)) clientId
      created := h.created + 1 }
  | .unlockMap map clientId =>
    some { h with updateMutex := none, receive := .sendMap map clientId }
  | .sendMap map clientId =>
    some { h with receive := .head, calls := h.calls ++ [.sendTo map clientId] }
  | .sendPing id clientId =>
    some { h with
      receive := .unlock
      created := h.created + 1
      calls := h.calls ++ [.sendTo (h.newMessage (.pingReply id)) clientId] }
  | .unlock => some { h with updateMutex := none, receive := .head }
  | .finished => none

/-- One step of the host. -/
def step [Trig F D] [ToInt D] [OfWord 64 D] [OfWord 32 F] [ToWord 64 D] [ToWord 32 F]
    (h : HostThreads D F) : HostLabel → Option (HostThreads D F)
  | .interrupt => some { h with stopSignal := true }
  | .main => h.mainStep
  | .update now later ρ => h.updateStep now later ρ
  | .send => h.sendStep
  | .receive m ρ draw => h.receiveStep m ρ draw

end HostThreads

/-! ## The host without threads -/

/-- The game, the messages handled, the replies to them and the serialized states. -/
structure AtomicHost (D F : Type) where
  game : Game D F
  handled : List IncomingMessage
  replies : List (Outgoing D × ℕ)
  states : List (Outgoing D)

namespace AtomicHost

def initial (m : GameMap D) : AtomicHost D F := ⟨Game.initial m, [], [], []⟩

/-- A message may be handled with this draw. -/
def CanDraw [ToInt D] [OfWord 64 D] [OfWord 32 F] (g : Game D F) (draw : ℤ × ℤ)
    (m : IncomingMessage) : Prop :=
  m.messageType = .message → (m.message.op D F).CanDraw g.gameMap draw

instance [ToInt D] [OfWord 64 D] [OfWord 32 F] (g : Game D F) (draw : ℤ × ℤ)
    (m : IncomingMessage) : Decidable (CanDraw g draw m) := by
  unfold CanDraw
  infer_instance

/-- One critical section of `update_mutex`, or one turn of it for the update thread. -/
def step [Trig F D] [ToInt D] [OfWord 64 D] [OfWord 32 F] [ToWord 64 D] [ToWord 32 F]
    (a : AtomicHost D F) : HostEvent → Option (AtomicHost D F)
  | .handle ρ draw m =>
    if CanDraw a.game draw m then
      let (game, replies) := ((handleMessage ρ draw a.game m).run []).1
      some { a with game, handled := a.handled ++ [m], replies := a.replies ++ replies }
    else none
  | .tick ρ => (PRShooter.tick ρ a.game).map fun game => { a with game }
  | .serialize => some { a with states := a.states ++ [.gameState (serializeGameState a.game)] }

end AtomicHost

end PRShooter
