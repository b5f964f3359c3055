import PRShooter.ServerQueue
import PRShooter.History
import PRShooter.Lts

/-!
# The threads of the server

`Server/server.c`, `Server/server_send.c`, `Server/server_listen.c` and the closing of a receiver
in `Server/server_receive.c`. A step is one critical section or one system call of one thread: the
host's `sendTo` and `sendToEveryone`, the listener, the receivers closing their sockets, the sender
and a stop. Descriptor numbers are given by the system: `accept` may return any number that is not
open. What a client sends is left out here.

The log is the history of the run: the calls of the host, what the sender finds, pops and attempts
to send, and which connection its frames are written to.
-/

namespace PRShooter

/-! ## Data -/

/-- `ThreadStatus`. -/
inductive ThreadStatus where
  | running
  | stop
  | stopped
  deriving DecidableEq, Repr

/-- `Client` without the thread id. -/
structure ClientRecord where
  socket : ℕ
  status : ThreadStatus
  deriving DecidableEq, Repr

/-- `IndividualMessage`. -/
structure IndividualMessage (M : Type) where
  message : M
  clientId : ℕ
  deriving DecidableEq, Repr

/-- The message of a `sendToEveryone` and the number of the call. -/
structure Broadcast (M : Type) where
  message : M
  call : ℕ
  deriving DecidableEq, Repr

/-- What `sendMessageTo` is given: an individual message, or the copy of `message_to_everyone`,
whose data may be `NULL`. -/
inductive Payload (M : Type) where
  | individual (message : M)
  | everyone (broadcast : Option (Broadcast M))
  deriving DecidableEq, Repr

/-- The arguments of `sendMessageTo`, with the copied record. -/
structure Job (M : Type) where
  clientId : ℕ
  client : ClientRecord
  payload : Payload M
  deriving DecidableEq, Repr

/-- Where the sender thread is. -/
inductive Sender (M : Type) where
  /-- At `while(isStopped() == false)`. -/
  | head
  /-- Before `lockMutex(&message_mutex)`. -/
  | lockMessage
  /-- In `waitForMessage`, before the test of the queue. -/
  | waitQueue
  /-- In `waitForMessage`, the queue was empty: before the test of `message_to_everyone`. -/
  | waitSlot
  /-- In `pthread_cond_timedwait`: `message_mutex` is free. -/
  | waiting
  /-- `pthread_cond_timedwait` has returned. -/
  | woken
  /-- `waitForMessage` has returned 0: before `queueLock(&outgoing_queue)`. -/
  | lockQueue
  /-- Holds both locks, before the test of the queue. -/
  | checkQueue
  /-- The queue is not empty, `message_mutex` is free. -/
  | popIndividual
  /-- Before `getClient`. -/
  | getClient (msg : IndividualMessage M)
  /-- The queue was empty and is unlocked: before `popMessageToEveryone`. -/
  | popEveryone
  /-- Before `getAllClients`. -/
  | getAllClients (msg : Option (Broadcast M))
  /-- At the calls of `sendMessageTo` that are left. -/
  | serve (jobs : List (Job M))
  /-- In `sendMessageTo`, before `send` of the size. -/
  | sendSize (job : Job M) (jobs : List (Job M))
  /-- In `sendMessageTo`, before `send` of the data. -/
  | sendData (job : Job M) (jobs : List (Job M))
  /-- After the loop. -/
  | drain
  | done

/-- The sender holds `message_mutex`. -/
def Sender.holdsMessage {M : Type} : Sender M → Bool
  | .waitQueue | .waitSlot | .woken | .lockQueue | .checkQueue | .popEveryone => true
  | _ => false

/-- The sender holds the lock of `outgoing_queue`. -/
def Sender.holdsQueue {M : Type} : Sender M → Bool
  | .checkQueue | .popIndividual => true
  | _ => false

/-- The copied records the sender may still use. -/
def Sender.jobs {M : Type} : Sender M → List (Job M)
  | .serve jobs => jobs
  | .sendSize job jobs | .sendData job jobs => job :: jobs
  | _ => []

/-- Where the listener is: in `accept`, or with a new descriptor before `addClient`. -/
inductive Listener where
  | accepting
  | accepted (fd : ℕ) (conn : ℕ)
  deriving DecidableEq, Repr

/-- Where the receiver thread of a client is in its closing. -/
inductive ReceiverThread where
  | notCreated
  | running
  | socketClosed
  | finished
  deriving DecidableEq, Repr

/-- What the log records. -/
inductive ServerEvent (M : Type) where
  | sendTo (msg : IndividualMessage M)
  | sendToEveryone (message : M)
  | found (empty : Bool)
  | popIndividual (msg : IndividualMessage M)
  | popEveryone (msg : Option (Broadcast M))
  | attempt (clientId : ℕ) (payload : Payload M)
  | written (clientId : ℕ) (conn : ℕ)

/-- The state of the server. `connOf` is the connection that was accepted for each client,
`fds` the connection behind each open descriptor, `everyoneCalls` the number of calls of
`sendToEveryone`. -/
structure Server (M : Type) where
  outgoing : SynchronizedQueue (IndividualMessage M)
  everyone : Option (Broadcast M)
  everyoneCalls : ℕ
  clients : List ClientRecord
  receivers : List ReceiverThread
  connOf : List ℕ
  fds : ℕ → Option ℕ
  nextConn : ℕ
  listener : Listener
  stopped : Bool
  sender : Sender M
  log : List (ServerEvent M)

/-- A step of a thread or of the environment. -/
inductive ServerLabel (M : Type) where
  | sendTo (msg : IndividualMessage M)
  | sendToEveryone (message : M)
  | accept (fd : ℕ)
  | addClient (created : Bool)
  | closeSocket (clientId : ℕ)
  | stopClient (clientId : ℕ)
  | setStop
  | stopReceivingThreads
  /-- The next step of the sender; `ok` is whether a `send` succeeds. -/
  | sender (ok : Bool)

namespace Server

variable {M : Type}

/-- The server after `runServer`. -/
def initial : Server M :=
  { outgoing := [], everyone := none, everyoneCalls := 0, clients := [], receivers := [],
    connOf := [], fds := fun _ => none, nextConn := 0, listener := .accepting, stopped := false,
    sender := .head, log := [] }

/-! ## The clients table -/

/-- Write the status of a client. -/
def setStatus (s : Server M) (i : ℕ) (status : ThreadStatus) : Server M :=
  { s with clients := s.clients.modify i fun client => { client with status } }

/-- `signalClientToStop`. -/
def signalClientToStop (s : Server M) (i : ℕ) : Server M := s.setStatus i .stop

/-- `addClient`: a record with status RUNNING, and its receiver thread if it can be created. -/
def addClient (s : Server M) (fd conn : ℕ) (created : Bool) : Server M :=
  { s with
    clients := s.clients ++ [⟨fd, .running⟩]
    receivers := s.receivers ++ [if created then .running else .notCreated]
    connOf := s.connOf ++ [conn]
    fds := if created then s.fds else Function.update s.fds fd none
    listener := .accepting }

/-! ## The sender -/

/-- One `send` of `sendMessageTo`: bytes reach the connection behind the descriptor, or the call
fails and the client is told to stop. -/
def send (s : Server M) (ok : Bool) (job : Job M) : Server M :=
  match s.fds job.client.socket with
  | some conn =>
    if ok then { s with log := s.log ++ [.written job.clientId conn] }
    else s.signalClientToStop job.clientId
  | none => s.signalClientToStop job.clientId

/-- The jobs of a broadcast: one for each record of the copied table. -/
def broadcastJobs (clients : List ClientRecord) (msg : Option (Broadcast M)) : List (Job M) :=
  clients.zipIdx.map fun (client, i) => ⟨i, client, .everyone msg⟩

/-- One step of `startSending`; a blocking `send` is the step in which it returns. For an id that was
never given out `getClient` would read past the table: there is no such step. -/
def senderStep (s : Server M) (ok : Bool) : Option (Server M) :=
  match s.sender with
  | .head => some { s with sender := if s.stopped then .drain else .lockMessage }
  | .lockMessage => some { s with sender := .waitQueue }
  | .waitQueue =>
    some { s with sender := if queueSyncIsEmpty s.outgoing then .waitSlot else .lockQueue }
  | .waitSlot => some { s with sender := if s.everyone.isNone then .waiting else .lockQueue }
  | .waiting => some { s with sender := .woken }
  | .woken => some { s with sender := if s.stopped then .drain else .waitQueue }
  | .lockQueue => some { s with sender := .checkQueue }
  | .checkQueue =>
    let empty := queueSyncIsEmpty s.outgoing
    some { s with
      sender := if empty then .popEveryone else .popIndividual
      log := s.log ++ [.found empty] }
  | .popIndividual =>
    (queueSyncPopFront s.outgoing).map fun (msg, rest) =>
      { s with outgoing := rest, sender := .getClient msg, log := s.log ++ [.popIndividual msg] }
  | .getClient msg =>
    s.clients[msg.clientId]?.map fun client =>
      { s with sender := .serve [⟨msg.clientId, client, .individual msg.message⟩] }
  | .popEveryone =>
    some { s with
      everyone := none
      sender := .getAllClients s.everyone
      log := s.log ++ [.popEveryone s.everyone] }
  | .getAllClients msg => some { s with sender := .serve (broadcastJobs s.clients msg) }
  | .serve [] => some { s with sender := .head }
  | .serve (job :: jobs) =>
    if job.client.status = .running then
      some { s with
        sender := .sendSize job jobs
        log := s.log ++ [.attempt job.clientId job.payload] }
    else some { s with sender := .serve jobs }
  | .sendSize job jobs => some { s.send ok job with sender := .sendData job jobs }
  | .sendData job jobs => some { s.send ok job with sender := .serve jobs }
  | .drain => some { s with outgoing := [], sender := .done }
  | .done => none

/-! ## The steps -/

/-- One step of the server. `stopServer` stops the receivers when the sender has been joined. -/
def step (s : Server M) : ServerLabel M → Option (Server M)
  | .sendTo msg =>
    if s.sender.holdsQueue then none
    else
      some { s with
        outgoing := queueSyncPushBack s.outgoing msg
        log := s.log ++ [.sendTo msg] }
  | .sendToEveryone message =>
    if s.sender.holdsMessage then none
    else
      some { s with
        everyone := some ⟨message, s.everyoneCalls⟩
        everyoneCalls := s.everyoneCalls + 1
        log := s.log ++ [.sendToEveryone message] }
  | .accept fd =>
    if s.listener = .accepting ∧ s.fds fd = none then
      some { s with
        fds := Function.update s.fds fd (some s.nextConn)
        listener := .accepted fd s.nextConn
        nextConn := s.nextConn + 1 }
    else none
  | .addClient created =>
    match s.listener with
    | .accepted fd conn => some (s.addClient fd conn created)
    | .accepting => none
  | .closeSocket i =>
    match s.receivers[i]?, s.clients[i]? with
    | some .running, some client =>
      some { s with
        fds := Function.update s.fds client.socket none
        receivers := s.receivers.set i .socketClosed }
    | _, _ => none
  | .stopClient i =>
    if s.receivers[i]? = some .socketClosed then
      some { s.setStatus i .stopped with receivers := s.receivers.set i .finished }
    else none
  | .setStop => some { s with stopped := true }
  | .stopReceivingThreads =>
    match s.sender with
    | .done =>
      some { s with clients := s.clients.map fun client => { client with status := .stop } }
    | _ => none
  | .sender ok => s.senderStep ok

end Server

end PRShooter
