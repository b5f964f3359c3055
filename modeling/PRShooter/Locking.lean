import PRShooter.LockOrder

/-!
# The mutexes of the host and the server

What the threads of `Host/game.cpp` and of the server do with `update_mutex`, `message_mutex`, the
mutexes of the two queues and that of the clients, function by function. `update_mutex` comes first,
then `message_mutex`, then that of `outgoing_queue`; the other two are never held beside another one.

A condition that is not about a mutex may go either way, so `send`, `poll`, `recv`, the queues and
the messages do not appear, and a `pthread_join` lets the thread that calls it go on at once. The
threads run once `runServer` has created both of its own. A failed call on a mutex or a condition
variable ends the process.
-/

namespace PRShooter

/-! ## Mutexes and threads -/

inductive Mutex where
  /-- `update_mutex`, a `std::mutex`. -/
  | update
  | message
  /-- The mutex of `outgoing_queue`. -/
  | outgoing
  /-- The mutex of `received_messages`. -/
  | received
  /-- The mutex of `threads.clients`. -/
  | clients
  deriving DecidableEq

inductive ThreadKind where
  /-- The constructor of `Game`, `Game::run` and the destructor. -/
  | main
  | update
  | send
  | receive
  | listening
  | sending
  | receiving

namespace Mutex

def rank : Mutex → ℕ
  | update => 0
  | message => 1
  | outgoing => 2
  | received => 3
  | clients => 4

/-- Whether it was made by `initRecursiveMutex`. -/
def recursive : Mutex → Bool
  | update => false
  | message | outgoing | received | clients => true

def order : LockOrder.Order Mutex := ⟨rank, recursive⟩

end Mutex

/-- What a function of the source does with mutexes. -/
abbrev Locking := LockOrder.Command Mutex ThreadKind

namespace Locking

open LockOrder.Command

/-! ## `server_mutex.c`, `server_queue.c` and `server_array.c` -/

def lockMutex (m : Mutex) : Locking := block [perhaps exit, lock m]

def unlockMutex (m : Mutex) : Locking := block [perhaps exit, unlock m]

def queueLock (queue : Mutex) : Locking := lockMutex queue

def queueUnlock (queue : Mutex) : Locking := unlockMutex queue

/-- A queue function: what it does between locking and unlocking takes no mutex. -/
def queueFunction (queue : Mutex) : Locking := block [queueLock queue, queueUnlock queue]

def queueSyncPushBack (queue : Mutex) : Locking := queueFunction queue

def queueSyncPushFront (queue : Mutex) : Locking := queueFunction queue

def queueSyncIsEmpty (queue : Mutex) : Locking := queueFunction queue

/-- The queue is asserted not to be empty. -/
def popFrontNode (queue : Mutex) : Locking :=
  block [queueLock queue, perhaps exit, queueUnlock queue]

def queueSyncPopFront (queue : Mutex) : Locking := popFrontNode queue

def queueSyncPopCopyFront (queue : Mutex) : Locking := queueSyncPopFront queue

def arrayLock (array : Mutex) : Locking := lockMutex array

def arrayUnlock (array : Mutex) : Locking := unlockMutex array

/-! ## `server.c` -/

/-- A function of the clients table: what it does between locking and unlocking takes no mutex. -/
def clientsFunction : Locking := block [arrayLock .clients, arrayUnlock .clients]

def arraySyncGetItem (array : Mutex) : Locking := block [arrayLock array, arrayUnlock array]

def getClient : Locking := arraySyncGetItem .clients

def getAllClients : Locking := clientsFunction

def getClientStatus : Locking := clientsFunction

def stopClient : Locking := clientsFunction

def signalClientToStop : Locking := clientsFunction

/-- `pthread_create` may fail; the socket is closed then. -/
def addClient : Locking :=
  block [arrayLock .clients, perhaps (create .receiving), arrayUnlock .clients]

/-- The clients are unlocked before the threads are joined. -/
def stopReceivingThreads : Locking := clientsFunction

/-! ## `server_receive.c` -/

namespace Receive

/-- False if it returns `ETIMEDOUT`. -/
def waitForMessage : Locking :=
  block [
    whileDo (queueSyncIsEmpty .received)
      (block [timedWait .received, choice (ret false) (perhaps exit)]),
    ret true]

end Receive

def take : Locking :=
  block [
    queueLock .received,
    call Receive.waitForMessage (queueSyncPopCopyFront .received) skip,
    queueUnlock .received]

def destroyReceivedQueue : Locking :=
  whileDo (queueSyncIsEmpty .received) (queueSyncPopFront .received)

/-- A turn of the loop: `poll` fails, or there is nothing to read, or a `recv` ends the loop, or a
message is pushed. -/
def startReceiving : Locking :=
  block [
    queueSyncPushBack .received,
    getClient,
    whileDo getClientStatus
      (choice brk <| choice skip <| choice brk <|
        block [queueLock .received, queueSyncPushBack .received, queueUnlock .received]),
    queueSyncPushFront .received,
    stopClient]

/-! ## `server_send.c` -/

def sendToEveryone : Locking := block [lockMutex .message, unlockMutex .message]

def sendTo : Locking := queueSyncPushBack .outgoing

def popMessageToEveryone : Locking := block [lockMutex .message, unlockMutex .message]

def sendMessageTo : Locking :=
  function <| block [
    perhaps (ret true),
    perhaps signalClientToStop,
    perhaps signalClientToStop]

namespace Send

/-- False if it returns -1, which it does when the server has been stopped. -/
def waitForMessage : Locking :=
  block [
    whileDo (queueSyncIsEmpty .outgoing)
      (block [timedWait .message, choice (ret false) (perhaps exit)]),
    ret true]

end Send

def startSending : Locking :=
  block [
    whileDo skip <| block [
      lockMutex .message,
      call Send.waitForMessage skip (block [unlockMutex .message, brk]),
      queueLock .outgoing,
      queueSyncIsEmpty .outgoing,
      choice
        (block [
          unlockMutex .message,
          queueSyncPopFront .outgoing,
          queueUnlock .outgoing,
          getClient,
          sendMessageTo])
        (block [
          queueUnlock .outgoing,
          popMessageToEveryone,
          unlockMutex .message,
          getAllClients,
          whileDo skip sendMessageTo])],
    queueLock .outgoing,
    whileDo (queueSyncIsEmpty .outgoing) (queueSyncPopFront .outgoing),
    queueUnlock .outgoing]

/-! ## `server_listen.c` -/

/-- A turn of the loop: `poll` fails, or no connection is accepted, or a client is added. -/
def startListening : Locking := whileDo skip (choice brk (perhaps addClient))

/-- The threads have been joined. -/
def stopServer : Locking := block [stopReceivingThreads, destroyReceivedQueue]

/-! ## `game.cpp` -/

def updateThread : Locking := whileDo skip (perhaps (block [lock .update, unlock .update]))

def sendThread : Locking :=
  whileDo skip (block [lock .update, unlock .update, sendToEveryone])

def sendWelcomeMessage : Locking := sendTo

/-- A NEW_CONNECTION unlocks `update_mutex` before the map is sent, and returns; the reply to a PING
is sent under the lock. -/
def handleMessage : Locking :=
  function <| perhaps <| block [
    lock .update,
    choice (block [sendWelcomeMessage, unlock .update, sendTo, ret true]) (perhaps sendTo),
    unlock .update]

def receiveThread : Locking := whileDo skip (block [take, handleMessage])

def main : Locking :=
  block [create .listening, create .sending, create .update, create .send, create .receive,
    stopServer]

end Locking

/-- What the threads run. -/
def ThreadKind.program : ThreadKind → Locking
  | main => Locking.main
  | update => Locking.updateThread
  | send => Locking.sendThread
  | receive => Locking.receiveThread
  | listening => Locking.startListening
  | sending => Locking.startSending
  | receiving => Locking.startReceiving

namespace Locking

open LockOrder

/-! ## Every schedule -/

/-- One step of one thread. -/
def step : System Mutex ThreadKind → ℕ × Bool → Option (System Mutex ThreadKind) :=
  LockOrder.step Mutex.order ThreadKind.program

/-- Only the first thread. -/
def initial : System Mutex ThreadKind :=
  [ThreadKind.main].map fun kind => Thread.start kind.program

/-- Every function keeps to the order of the mutexes. -/
theorem ordered_program (kind : ThreadKind) : kind.program.Ordered Mutex.order := by
  cases kind <;> decide

end Locking

/-- **No deadlock.** In every reachable state, with any number of receivers, no threads wait for each
other's mutexes or one for its own, every timed wait holds its mutex exactly once, and a thread that
has returned holds none. -/
theorem noDeadlock_of_reach (s : LockOrder.System Mutex ThreadKind)
    (h : Lts.Reach Locking.step Lts.Any Locking.initial s) : LockOrder.Safe Mutex.order s :=
  LockOrder.safe_of_reach Locking.ordered_program h

/-- The listener has created a receiver and still holds the clients; the receiver has pushed its
NEW_CONNECTION. -/
def newReceiver : List (ℕ × Bool) :=
  List.replicate 2 (0, false) ++ List.replicate 7 (1, false) ++ [(1, true)] ++
    List.replicate 7 (1, false) ++ [(1, true)] ++ List.replicate 3 (1, false) ++
    List.replicate 17 (2, false)

theorem noDeadlock_of_reach_newReceiver : ∃ s,
    Lts.run Locking.step newReceiver Locking.initial = some s ∧
      LockOrder.Waits Mutex.order s 2 .clients ∧ LockOrder.Safe Mutex.order s := by
  have hrun : Lts.run Locking.step newReceiver Locking.initial = some _ := rfl
  refine ⟨_, hrun, ⟨_, rfl, rfl, ?_⟩, noDeadlock_of_reach _ (Lts.Reach.of_run hrun)⟩
  decide

end PRShooter
