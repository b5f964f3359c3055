import Mathlib.Data.List.Basic

/-!
# The synchronized queue

The operations of `Server/server_queue.h` on the contents of a queue, first element first. Each of
them runs under the mutex of the queue and is one atomic step of a thread.
-/

namespace PRShooter

/-- The contents of a `SynchronizedQueue`. -/
abbrev SynchronizedQueue (α : Type) := List α

variable {α : Type}

/-- `queueSyncPushBack`. -/
def queueSyncPushBack (queue : SynchronizedQueue α) (element : α) : SynchronizedQueue α :=
  queue ++ [element]

/-- `queueSyncPushFront`. -/
def queueSyncPushFront (queue : SynchronizedQueue α) (element : α) : SynchronizedQueue α :=
  element :: queue

/-- `queueSyncPopFront` and `queueSyncPopCopyFront`: the first element and the rest. -/
def queueSyncPopFront : SynchronizedQueue α → Option (α × SynchronizedQueue α)
  | [] => none
  | element :: queue => some (element, queue)

/-- `queueSyncIsEmpty`. -/
def queueSyncIsEmpty (queue : SynchronizedQueue α) : Bool := queue.isEmpty

theorem queueSyncPopFront_eq_some {queue rest : SynchronizedQueue α} {element : α} :
    queueSyncPopFront queue = some (element, rest) ↔ queue = element :: rest := by
  cases queue with
  | nil => simp [queueSyncPopFront]
  | cons a queue => simp [queueSyncPopFront]

end PRShooter
