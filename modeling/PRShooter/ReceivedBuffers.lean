import PRShooter.Ownership
import PRShooter.StartReceiving

/-!
# The buffers of the messages received

All receiver threads beside the host's `take`, the `IncomingMessageWrapper`s that the host keeps,
and `stopServer`. An event that is pushed on `received_messages` has one owner at any time, and the
buffer of its payload goes along with it: from the receiver that has allocated it to the queue, and
from there to a wrapper or to `destroyReceivedQueue` (`receivedOnce_of_reach`).
-/

namespace PRShooter

open Ownership

/-! ## Data -/

/-- An event on `received_messages`: the `IncomingMessage`, the buffer its data points to and the
number of the push. -/
structure Pushed where
  serial : ℕ
  event : IncomingMessage
  data : Option ℕ

/-- `IncomingMessageWrapper`. -/
structure IncomingMessageWrapper where
  incomingMessage : IncomingMessage
  data : Option ℕ

/-- Where the host is. -/
inductive Host where
  | idle
  /-- In `take`, in `pthread_cond_timedwait`. -/
  | waiting
  /-- `take` has returned: before the constructor of the wrapper. -/
  | moving (event : IncomingMessage) (data : Option ℕ)

/-- How far `stopServer` is. -/
inductive StopStage where
  | notCalled
  /-- `stopped` is set, the listener may still be running. -/
  | stopping
  | listenerJoined
  /-- All threads have been joined: in `destroyReceivedQueue`. -/
  | destroying
  | returned
  deriving DecidableEq, Repr

/-- The receiver threads by their client ids, the queue, the host and the stop. `pushed`,
`returned` and `disposed` record what has been pushed, what `take` has returned, and what
`destroyReceivedQueue` has popped; `heap` what has happened to buffers. -/
structure ReceivedBuffers where
  threads : List ReceiverState
  queue : SynchronizedQueue Pushed
  host : Host
  wrappers : List IncomingMessageWrapper
  stage : StopStage
  pushed : List Pushed
  returned : List Pushed
  disposed : List Pushed
  heap : List (Event ℕ)

/-- A step of a receiver, of the host or of `stopServer`. -/
inductive ReceivedLabel where
  /-- `addClient` by the listener: `created` is whether the thread can be created. -/
  | addClient (created : Bool) (sent : List UInt8)
  | receiver (clientId : ℕ) (label : ReceiverLabel)
  | take
  | wake
  | timeout
  | wrap
  | destroyWrapper (i : ℕ)
  | stopServer
  | joinListener
  | stopReceivingThreads
  /-- One turn of the loop of `destroyReceivedQueue`. -/
  | dispose
  | queueSyncDestroy

/-- The thread of a new client. One that cannot be created makes no call. -/
def ReceiverState.create (clientId : ℕ) (created : Bool) (sent : List UInt8) : ReceiverState :=
  ⟨clientId, if created then .pushConnected else .returned, sent⟩

def ReceiverCall.hasReturned : ReceiverCall → Bool
  | .returned => true
  | _ => false

/-- `malloc` returns a buffer of its own. -/
def ReceiverEffect.Fresh (heap : List (Event ℕ)) : ReceiverEffect → Prop
  | .malloc buffer => buffer ∉ acquired heap
  | _ => True

instance (heap : List (Event ℕ)) : (effect : ReceiverEffect) → Decidable (effect.Fresh heap)
  | .malloc buffer => inferInstanceAs (Decidable (buffer ∉ acquired heap))
  | .none | .pushBack _ _ | .pushFront _ | .free _ => .isTrue trivial

/-! ## What a receiver holds -/

/-- The buffer a receiver has allocated and neither pushed nor freed. -/
def ReceiverCall.data : ReceiverCall → Option ℕ
  | .recvData _ buffer | .pushMessage _ buffer => some buffer
  | _ => none

/-- What an effect does to the buffer of the thread. Only LOST_CONNECTION is pushed at the
front. -/
inductive BufferPasses : Option ℕ → ReceiverEffect → Option ℕ → Prop
  | none (data : Option ℕ) : BufferPasses data .none data
  | pushBack (event : IncomingMessage) (data : Option ℕ)
      (htype : event.messageType ≠ .lostConnection) :
    BufferPasses data (.pushBack event data) none
  | pushFront (event : IncomingMessage) (htype : event.messageType = .lostConnection) :
    BufferPasses none (.pushFront event) none
  | malloc (buffer : ℕ) : BufferPasses none (.malloc buffer) (some buffer)
  | free (buffer : ℕ) : BufferPasses (some buffer) (.free buffer) none

theorem ReceiverState.afterRecvSize_data (r : ReceiverState) (ok : Bool) :
    (r.afterRecvSize ok).call.data = none := by
  simp only [afterRecvSize]
  split_ifs <;> rfl

theorem ReceiverState.afterRecvData_passes (r : ReceiverState) (size buffer : ℕ) (ok : Bool)
    (behind : ℕ → UInt8) :
    BufferPasses (some buffer) (r.afterRecvData size buffer ok behind).2
      (r.afterRecvData size buffer ok behind).1.call.data := by
  unfold afterRecvData
  dsimp only
  split
  · exact .free buffer
  · split
    · exact .free buffer
    · exact .none (some buffer)

theorem ReceiverState.passes_of_step {r r' : ReceiverState} {l : ReceiverLabel}
    {effect : ReceiverEffect} (h : r.step l = some (r', effect)) :
    BufferPasses r.call.data effect r'.call.data := by
  cases calls_of_step h with
  | connected hcall =>
    rw [hcall]
    exact .pushBack (newConnectionEvent r.clientId) none MessageType.noConfusion
  | message message buffer hcall =>
    rw [hcall]
    exact .pushBack (messageEvent r.clientId message) (some buffer) MessageType.noConfusion
  | disconnected hcall =>
    rw [hcall]
    exact .pushFront (lostConnectionEvent r.clientId) rfl
  | status running hcall =>
    rw [hcall]
    cases running <;> exact .none none
  | pollFailed hcall | pollReadable hcall | pollAgain _ hcall | closed hcall =>
    rw [hcall]
    exact .none none
  | recvSize ok hcall =>
    rw [hcall, r.afterRecvSize_data ok]
    exact .none none
  | malloc size buffer hcall =>
    rw [hcall]
    exact .malloc buffer
  | recvData size buffer ok behind hcall =>
    rw [hcall]
    exact r.afterRecvData_passes size buffer ok behind

namespace ReceivedBuffers

def initial : ReceivedBuffers := ⟨[], [], .idle, [], .notCalled, [], [], [], []⟩

/-! ## The steps -/

/-- What a receiver does to the queue and to the heap. -/
def apply (s : ReceivedBuffers) : ReceiverEffect → ReceivedBuffers
  | .none => s
  | .pushBack event data =>
    let msg : Pushed := ⟨s.pushed.length, event, data⟩
    { s with queue := queueSyncPushBack s.queue msg, pushed := s.pushed ++ [msg] }
  | .pushFront event =>
    let msg : Pushed := ⟨s.pushed.length, event, none⟩
    { s with queue := queueSyncPushFront s.queue msg, pushed := s.pushed ++ [msg] }
  | .malloc buffer => { s with heap := s.heap ++ [.acquired buffer] }
  | .free buffer => { s with heap := s.heap ++ [.released buffer] }

/-- The body of `take` under the lock: return the first event or wait for one. -/
def takeFront (s : ReceivedBuffers) : ReceivedBuffers :=
  match queueSyncPopFront s.queue with
  | some (msg, rest) =>
    { s with queue := rest, host := .moving msg.event msg.data, returned := s.returned ++ [msg] }
  | none => { s with host := .waiting }

/-- One step. The host takes before it calls `stopServer`, and destroys a wrapper whenever it
likes. -/
def step (s : ReceivedBuffers) : ReceivedLabel → Option ReceivedBuffers
  | .addClient created sent =>
    if s.stage = .notCalled ∨ s.stage = .stopping then
      some { s with threads := s.threads ++ [.create s.threads.length created sent] }
    else none
  | .receiver c label =>
    (s.threads[c]?.bind fun thread => thread.step label).bind fun (thread, effect) =>
      if effect.Fresh s.heap then some ({ s with threads := s.threads.set c thread }.apply effect)
      else none
  | .take =>
    match s.host, s.stage with
    | .idle, .notCalled => some s.takeFront
    | _, _ => none
  | .wake =>
    match s.host with
    | .waiting => some s.takeFront
    | _ => none
  | .timeout =>
    match s.host with
    | .waiting => some { s with host := .moving emptyEvent none }
    | _ => none
  | .wrap =>
    match s.host with
    -- the moved message is left without data
    | .moving event data => some { s with host := .idle, wrappers := s.wrappers ++ [⟨event, data⟩] }
    | _ => none
  | .destroyWrapper i =>
    s.wrappers[i]?.map fun wrapper =>
      { s with
        wrappers := s.wrappers.eraseIdx i
        heap := s.heap ++ wrapper.data.toList.map .released }
  | .stopServer =>
    match s.host, s.stage with
    | .idle, .notCalled => some { s with stage := .stopping }
    | _, _ => none
  | .joinListener => if s.stage = .stopping then some { s with stage := .listenerJoined } else none
  | .stopReceivingThreads =>
    if s.stage = .listenerJoined ∧ s.threads.all (fun thread => thread.call.hasReturned) then
      some { s with stage := .destroying }
    else none
  | .dispose =>
    if s.stage = .destroying then
      (queueSyncPopFront s.queue).map fun (msg, rest) =>
        { s with
          queue := rest
          disposed := s.disposed ++ [msg]
          heap := s.heap ++ msg.data.toList.map .released }
    else none
  | .queueSyncDestroy =>
    if s.stage = .destroying ∧ queueSyncIsEmpty s.queue then some { s with stage := .returned }
    else none

end ReceivedBuffers

/-! ## Who owns what -/

/-- The NEW_CONNECTION and MESSAGE events of a client, in order. -/
def ordinary (c : ℕ) (events : List Pushed) : List Pushed :=
  events.filter fun msg => msg.event.clientId = c ∧
    (msg.event.messageType = .newConnection ∨ msg.event.messageType = .message)

/-- The buffer that `take` is returning. -/
def Host.data : Host → Option ℕ
  | .moving _ data => data
  | _ => none

@[simp] theorem Host.data_moving (event : IncomingMessage) (data : Option ℕ) :
    (Host.moving event data).data = data := rfl

namespace ReceivedBuffers

/-- Every event pushed has been returned, has been disposed of, or is in the queue. -/
structure EventsOk (s : ReceivedBuffers) : Prop where
  serials : s.pushed.map Pushed.serial = List.range s.pushed.length
  custody : (s.returned ++ s.disposed ++ s.queue).Perm s.pushed
  order : ∀ c, ordinary c (s.returned ++ s.disposed ++ s.queue) = ordinary c s.pushed

/-- What `stopServer` can rely on. -/
structure StageOk (s : ReceivedBuffers) : Prop where
  host : s.stage ≠ .notCalled → s.host = .idle
  disposed : s.stage = .notCalled → s.disposed = []
  joined : s.stage = .destroying ∨ s.stage = .returned →
    ∀ thread ∈ s.threads, thread.call = .returned
  emptied : s.stage = .returned → s.queue = []

/-- The buffers that have been allocated and not freed, by their owners. -/
def owned (s : ReceivedBuffers) : List ℕ :=
  s.threads.filterMap (fun thread => thread.call.data) ++ s.queue.filterMap Pushed.data
    ++ s.host.data.toList ++ s.wrappers.filterMap IncomingMessageWrapper.data

variable {s t : ReceivedBuffers}

/-! ## The receivers -/

theorem eventsOk_pushBack (h : s.EventsOk) (threads : List ReceiverState)
    (event : IncomingMessage) (data : Option ℕ) :
    ({ s with threads }.apply (.pushBack event data)).EventsOk where
  serials := by simp [apply, h.serials, List.range_succ]
  custody := by
    simp only [apply, queueSyncPushBack, ← List.append_assoc]
    exact h.custody.append_right _
  order c := by
    have horder := h.order c
    simp only [apply, queueSyncPushBack, ordinary, ← List.append_assoc] at horder ⊢
    rw [List.filter_append, horder, ← List.filter_append]

/-- A LOST_CONNECTION enters at the other end. -/
theorem eventsOk_pushFront (h : s.EventsOk) (threads : List ReceiverState)
    {event : IncomingMessage} (htype : event.messageType = .lostConnection) :
    ({ s with threads }.apply (.pushFront event)).EventsOk where
  serials := by simp [apply, h.serials, List.range_succ]
  custody := by
    simp only [apply, queueSyncPushFront]
    exact List.perm_middle.trans ((h.custody.cons _).trans (List.perm_append_singleton _ _).symm)
  order c := by
    have horder := h.order c
    simp only [ordinary, List.filter_append] at horder
    simp only [apply, queueSyncPushFront, ordinary, List.filter_append, List.filter_cons,
      List.filter_nil, htype, reduceCtorEq, or_self, and_false, decide_false,
      Bool.false_eq_true, if_false, List.append_nil]
    exact horder

theorem eventsOk_receiver {data data' : Option ℕ} {effect : ReceiverEffect} (h : s.EventsOk)
    (hpasses : BufferPasses data effect data') (threads : List ReceiverState) :
    ({ s with threads }.apply effect).EventsOk := by
  cases hpasses with
  | pushBack event => exact eventsOk_pushBack h threads event data
  | pushFront event htype => exact eventsOk_pushFront h threads htype
  | none | malloc | free => exact ⟨h.serials, h.custody, h.order⟩

theorem stageOk_receiver (h : s.StageOk) (hstage : s.stage ≠ .destroying ∧ s.stage ≠ .returned)
    (threads : List ReceiverState) (effect : ReceiverEffect) :
    ({ s with threads }.apply effect).StageOk := by
  cases effect <;> exact ⟨h.host, h.disposed,
    fun hjoined => absurd hjoined (not_or.mpr hstage), fun hreturned => absurd hreturned hstage.2⟩

theorem accounts_receiver {c : ℕ} {thread thread' : ReceiverState}
    {effect : ReceiverEffect} (h : Accounts s.heap s.owned) (hthread : s.threads[c]? = some thread)
    (hpasses : BufferPasses thread.call.data effect thread'.call.data)
    (hfresh : effect.Fresh s.heap) :
    Accounts ({ s with threads := s.threads.set c thread' }.apply effect).heap
      ({ s with threads := s.threads.set c thread' }.apply effect).owned := by
  -- the buffer of this thread, and those of the others
  have hbefore := filterMap_perm_eraseIdx (f := fun thread => thread.call.data) hthread
  have hafter := filterMap_set_perm (f := fun thread => thread.call.data) hthread thread'
  generalize thread.call.data = data at hpasses hbefore
  generalize thread'.call.data = data' at hpasses hafter
  simp only [List.perm_iff_count, List.count_append] at hbefore hafter
  cases hpasses with
  | none =>
    refine h.perm (List.perm_iff_count.mpr fun b => ?_)
    have hbefore := hbefore b
    have hafter := hafter b
    simp only [apply, owned, List.count_append]
    omega
  | pushBack event =>
    refine h.perm (List.perm_iff_count.mpr fun b => ?_)
    have hbefore := hbefore b
    have hafter := hafter b
    simp only [apply, owned, queueSyncPushBack, List.filterMap_append, filterMap_cons_toList,
      List.filterMap_nil, Option.toList_none, List.count_append, List.count_nil] at hbefore hafter ⊢
    omega
  | pushFront event htype =>
    refine h.perm (List.perm_iff_count.mpr fun b => ?_)
    have hbefore := hbefore b
    have hafter := hafter b
    simp only [apply, owned, queueSyncPushFront, filterMap_cons_toList, Option.toList_none,
      List.count_append, List.count_nil] at hbefore hafter ⊢
    omega
  | malloc buffer =>
    refine (h.acquire hfresh).perm (List.perm_iff_count.mpr fun b => ?_)
    have hbefore := hbefore b
    have hafter := hafter b
    simp only [apply, owned, Option.toList_none, Option.toList_some, List.count_append,
      List.count_nil, List.count_cons] at hbefore hafter ⊢
    omega
  | free buffer =>
    refine (h.perm (List.perm_iff_count.mpr fun b => ?_)).release
    have hbefore := hbefore b
    have hafter := hafter b
    simp only [apply, owned, Option.toList_none, Option.toList_some, List.count_append,
      List.count_nil, List.count_cons] at hbefore hafter ⊢
    omega

/-! ## The steps keep the accounts -/

/-- Events, buffers and the stop are in order. -/
structure Ok (s : ReceivedBuffers) : Prop where
  events : s.EventsOk
  stage : s.StageOk
  accounts : Accounts s.heap s.owned

theorem ok_initial : initial.Ok :=
  ⟨⟨rfl, .nil, fun _ => rfl⟩, ⟨fun _ => rfl, fun _ => rfl, by simp [initial], fun _ => rfl⟩, .nil⟩

theorem step_of_returned {r : ReceiverState} (h : r.call = .returned) (l : ReceiverLabel) :
    r.step l = none := by
  cases l <;> simp [ReceiverState.step, h]

theorem ok_receiver {c : ℕ} {l : ReceiverLabel} (h : s.Ok)
    (hstep : s.step (.receiver c l) = some t) : t.Ok := by
  obtain ⟨⟨thread', effect⟩, hthread', hstep⟩ := Option.bind_eq_some_iff.mp hstep
  obtain ⟨thread, hthread, hcall⟩ := Option.bind_eq_some_iff.mp hthread'
  dsimp only at hstep
  split_ifs at hstep with hfresh
  obtain rfl := Option.some.inj hstep
  have hpasses := ReceiverState.passes_of_step hcall
  -- a thread that has been joined makes no step
  have hstage : s.stage ≠ .destroying ∧ s.stage ≠ .returned := by
    have hreturned : thread.call ≠ .returned := by
      intro hreturned
      rw [step_of_returned hreturned] at hcall
      cases hcall
    have hmem := List.mem_of_getElem? hthread
    exact ⟨fun hstage => hreturned (h.stage.joined (.inl hstage) thread hmem),
      fun hstage => hreturned (h.stage.joined (.inr hstage) thread hmem)⟩
  exact ⟨eventsOk_receiver h.events hpasses _, stageOk_receiver h.stage hstage _ effect,
    accounts_receiver h.accounts hthread hpasses hfresh⟩

theorem ok_addClient {created : Bool} {sent : List UInt8} (h : s.Ok)
    (hstep : s.step (.addClient created sent) = some t) : t.Ok := by
  simp only [step] at hstep
  split_ifs at hstep with hstage
  obtain rfl := Option.some.inj hstep
  have hjoined : ¬ (s.stage = .destroying ∨ s.stage = .returned) := by
    rcases hstage with hstage | hstage <;> simp [hstage]
  refine ⟨⟨h.events.serials, h.events.custody, h.events.order⟩,
    ⟨h.stage.host, h.stage.disposed, fun hstage => absurd hstage hjoined, h.stage.emptied⟩, ?_⟩
  -- a new thread holds no buffer
  have hdata : (ReceiverState.create s.threads.length created sent).call.data = none := by
    cases created <;> rfl
  refine h.accounts.perm (.of_eq ?_)
  simp [owned, hdata]

/-- `take` gets the first event with its buffer. -/
theorem ok_takeFront (h : s.Ok) (hhost : s.host.data = none) (hstage : s.stage = .notCalled) :
    s.takeFront.Ok := by
  unfold takeFront
  cases hpop : queueSyncPopFront s.queue with
  | none =>
    refine ⟨⟨h.events.serials, h.events.custody, h.events.order⟩,
      ⟨fun hne => absurd hstage hne, h.stage.disposed, h.stage.joined, h.stage.emptied⟩, ?_⟩
    have haccounts := h.accounts
    simp only [owned, hhost] at haccounts
    exact haccounts
  | some p =>
    obtain ⟨msg, rest⟩ := p
    have hqueue := queueSyncPopFront_eq_some.mp hpop
    have hdisposed := h.stage.disposed hstage
    have hmoved : s.returned ++ [msg] ++ s.disposed ++ rest =
        s.returned ++ s.disposed ++ s.queue := by simp [hdisposed, hqueue]
    refine ⟨⟨h.events.serials, ?_, fun c => ?_⟩, ⟨fun hne => absurd hstage hne,
      fun _ => hdisposed, h.stage.joined, fun hreturned => ?_⟩, ?_⟩
    · rw [hmoved]
      exact h.events.custody
    · rw [hmoved]
      exact h.events.order c
    · rw [hstage] at hreturned
      cases hreturned
    · refine h.accounts.perm (List.perm_iff_count.mpr fun b => ?_)
      simp only [owned, hqueue, hhost, filterMap_cons_toList, Option.toList_none, Host.data_moving,
        List.count_append, List.count_nil]
      omega

/-- A message that is moved leaves its buffer to the wrapper. -/
theorem ok_wrap (h : s.Ok) (hstep : s.step .wrap = some t) : t.Ok := by
  simp only [step] at hstep
  split at hstep
  next event data hhost =>
    obtain rfl := Option.some.inj hstep
    refine ⟨⟨h.events.serials, h.events.custody, h.events.order⟩,
      ⟨fun _ => rfl, h.stage.disposed, h.stage.joined, h.stage.emptied⟩, ?_⟩
    refine h.accounts.perm (List.perm_iff_count.mpr fun b => ?_)
    simp only [owned, hhost, Host.data, List.filterMap_append, filterMap_cons_toList,
      List.filterMap_nil, Option.toList_none, List.count_append, List.count_nil]
    omega
  next => cases hstep

theorem ok_timeout (h : s.Ok) (hstep : s.step .timeout = some t) : t.Ok := by
  simp only [step] at hstep
  split at hstep
  next hhost =>
    obtain rfl := Option.some.inj hstep
    refine ⟨⟨h.events.serials, h.events.custody, h.events.order⟩,
      ⟨fun hne => ?_, h.stage.disposed, h.stage.joined, h.stage.emptied⟩, ?_⟩
    · rw [h.stage.host hne] at hhost
      cases hhost
    · have haccounts := h.accounts
      simp only [owned, hhost, Host.data] at haccounts
      exact haccounts
  next => cases hstep

theorem ok_destroyWrapper {i : ℕ} (h : s.Ok) (hstep : s.step (.destroyWrapper i) = some t) :
    t.Ok := by
  obtain ⟨wrapper, hwrapper, rfl⟩ := Option.map_eq_some_iff.mp hstep
  refine ⟨⟨h.events.serials, h.events.custody, h.events.order⟩,
    ⟨h.stage.host, h.stage.disposed, h.stage.joined, h.stage.emptied⟩, ?_⟩
  refine (h.accounts.perm (List.perm_iff_count.mpr fun b => ?_)).releaseAll
  have hbefore := (filterMap_perm_eraseIdx (f := IncomingMessageWrapper.data) hwrapper).count_eq b
  simp only [owned, List.count_append] at hbefore ⊢
  omega

/-- `destroyReceivedQueue` frees the buffer of the first event. -/
theorem ok_dispose (h : s.Ok) (hstep : s.step .dispose = some t) : t.Ok := by
  simp only [step] at hstep
  split_ifs at hstep with hstage
  obtain ⟨⟨msg, rest⟩, hpop, rfl⟩ := Option.map_eq_some_iff.mp hstep
  have hqueue := queueSyncPopFront_eq_some.mp hpop
  have hmoved : s.returned ++ (s.disposed ++ [msg]) ++ rest =
      s.returned ++ s.disposed ++ s.queue := by simp [hqueue]
  refine ⟨⟨h.events.serials, ?_, fun c => ?_⟩, ⟨h.stage.host, fun hnot => ?_, h.stage.joined,
    fun hreturned => ?_⟩, ?_⟩
  · rw [hmoved]
    exact h.events.custody
  · rw [hmoved]
    exact h.events.order c
  · rw [hstage] at hnot
    cases hnot
  · rw [hstage] at hreturned
    cases hreturned
  · refine (h.accounts.perm (List.perm_iff_count.mpr fun b => ?_)).releaseAll
    simp only [owned, hqueue, filterMap_cons_toList, List.count_append]
    omega

theorem ok_take (h : s.Ok) (hstep : s.step .take = some t) : t.Ok := by
  simp only [step] at hstep
  split at hstep
  next hhost hstage => exact Option.some.inj hstep ▸ ok_takeFront h (by rw [hhost]; rfl) hstage
  next => cases hstep

theorem ok_wake (h : s.Ok) (hstep : s.step .wake = some t) : t.Ok := by
  simp only [step] at hstep
  split at hstep
  next hhost =>
    have hstage : s.stage = .notCalled := by
      by_contra hne
      rw [h.stage.host hne] at hhost
      cases hhost
    exact Option.some.inj hstep ▸ ok_takeFront h (by rw [hhost]; rfl) hstage
  next => cases hstep

/-! ## The stop keeps the accounts -/

/-- A step of `stopServer` touches no event and no buffer. -/
theorem Ok.stop (h : s.Ok) {stage : StopStage} (hstage : { s with stage }.StageOk) :
    { s with stage }.Ok :=
  ⟨⟨h.events.serials, h.events.custody, h.events.order⟩, hstage, h.accounts⟩

theorem ok_stopServer (h : s.Ok) (hstep : s.step .stopServer = some t) : t.Ok := by
  simp only [step] at hstep
  split at hstep
  next hhost hstage =>
    exact Option.some.inj hstep ▸ h.stop ⟨fun _ => hhost, nofun, by simp, nofun⟩
  next => cases hstep

theorem ok_joinListener (h : s.Ok) (hstep : s.step .joinListener = some t) : t.Ok := by
  simp only [step] at hstep
  split_ifs at hstep with hstage
  have hhost := h.stage.host (by simp [hstage])
  exact Option.some.inj hstep ▸ h.stop ⟨fun _ => hhost, nofun, by simp, nofun⟩

theorem ok_stopReceivingThreads (h : s.Ok) (hstep : s.step .stopReceivingThreads = some t) :
    t.Ok := by
  simp only [step] at hstep
  split_ifs at hstep with hjoined
  have hhost := h.stage.host (by simp [hjoined.1])
  refine Option.some.inj hstep ▸ h.stop ⟨fun _ => hhost, nofun, fun _ thread hthread => ?_, nofun⟩
  have hreturned := List.all_eq_true.mp hjoined.2 thread hthread
  cases hcall : thread.call <;> simp [hcall, ReceiverCall.hasReturned] at hreturned ⊢

theorem ok_queueSyncDestroy (h : s.Ok) (hstep : s.step .queueSyncDestroy = some t) : t.Ok := by
  simp only [step] at hstep
  split_ifs at hstep with hempty
  have hhost := h.stage.host (by simp [hempty.1])
  refine Option.some.inj hstep ▸ h.stop ⟨fun _ => hhost, nofun,
    fun _ => h.stage.joined (.inl hempty.1), fun _ => ?_⟩
  exact List.isEmpty_iff.mp hempty.2

theorem ok_step {l : ReceivedLabel} (h : s.Ok) (hstep : s.step l = some t) : t.Ok := by
  cases l with
  | addClient created sent => exact ok_addClient h hstep
  | receiver c l => exact ok_receiver h hstep
  | take => exact ok_take h hstep
  | wake => exact ok_wake h hstep
  | timeout => exact ok_timeout h hstep
  | wrap => exact ok_wrap h hstep
  | destroyWrapper i => exact ok_destroyWrapper h hstep
  | stopServer => exact ok_stopServer h hstep
  | joinListener => exact ok_joinListener h hstep
  | stopReceivingThreads => exact ok_stopReceivingThreads h hstep
  | dispose => exact ok_dispose h hstep
  | queueSyncDestroy => exact ok_queueSyncDestroy h hstep

/-! ## Runs -/

theorem ok_of_reach (h : Lts.Reach step Lts.Any initial s) : s.Ok :=
  h.invariant ok_initial fun _ _ _ hI _ hstep => ok_step hI hstep

/-- What `take` has returned of a client comes first. -/
theorem EventsOk.prefix_returned (h : s.EventsOk) (c : ℕ) :
    ordinary c s.returned <+: ordinary c s.pushed := by
  rw [← h.order c, List.append_assoc, ordinary, ordinary, List.filter_append]
  exact List.prefix_append _ _

/-- When `stopServer` has returned, only wrappers still own buffers. -/
theorem Ok.settled (h : s.Ok) (hstage : s.stage = .returned) :
    (s.returned ++ s.disposed).Perm s.pushed ∧
    (∀ c, ordinary c (s.returned ++ s.disposed) = ordinary c s.pushed) ∧
    (released s.heap ++ s.wrappers.filterMap IncomingMessageWrapper.data).Perm
      (acquired s.heap) := by
  have hqueue := h.stage.emptied hstage
  have hhost := h.stage.host (by simp [hstage])
  have hthreads : s.threads.filterMap (fun thread => thread.call.data) = [] := by
    refine List.filterMap_eq_nil_iff.mpr fun thread hthread => ?_
    rw [h.stage.joined (.inr hstage) thread hthread]
    rfl
  have hcustody := h.events.custody
  have horder := h.events.order
  have hbalance := h.accounts.balance
  simp only [hqueue, List.append_nil] at hcustody horder
  simp only [owned, hthreads, hqueue, hhost, Host.data, List.filterMap_nil, Option.toList_none,
    List.nil_append] at hbalance
  exact ⟨hcustody, horder, hbalance⟩

end ReceivedBuffers

/-- **Buffers of messages received.** At any time every event that has been pushed has been
returned by one `take`, has been disposed of, or is in the queue, and the events of a client other
than LOST_CONNECTION are returned in the order of the pushes. No buffer is freed twice. When
`stopServer` has returned nothing is in the queue, and every buffer allocated has been freed or
belongs to a wrapper that the host has not yet destroyed. -/
theorem receivedOnce_of_reach (s : ReceivedBuffers)
    (hreach : Lts.Reach ReceivedBuffers.step Lts.Any .initial s) :
    ((s.pushed.map Pushed.serial).Nodup ∧ (s.returned ++ s.disposed ++ s.queue).Perm s.pushed) ∧
    (∀ c, ordinary c s.returned <+: ordinary c s.pushed) ∧
    (History.EachEvent InTime s.heap ∧ (acquired s.heap).Nodup) ∧
    (s.stage = .returned →
      (s.returned ++ s.disposed).Perm s.pushed ∧
      (∀ c, ordinary c (s.returned ++ s.disposed) = ordinary c s.pushed) ∧
      (released s.heap ++ s.wrappers.filterMap IncomingMessageWrapper.data).Perm
        (acquired s.heap)) := by
  have h := ReceivedBuffers.ok_of_reach hreach
  refine ⟨⟨?_, h.events.custody⟩, h.events.prefix_returned,
    ⟨h.accounts.inTime, h.accounts.nodup⟩, h.settled⟩
  rw [h.events.serials]
  exact List.nodup_range

/-- Client 0 sends a message, which the host takes, and is cut off in the next one; client 1 sends
a message that `stopServer` disposes of. -/
def stopWithQueue : List ReceivedLabel :=
  [.addClient true [1, 0, 0, 0, 11, 2, 0, 0, 0, 7], .addClient true [1, 0, 0, 0, 12],
    .receiver 0 .pushed, .receiver 0 (.status true), .receiver 0 (.poll .readable),
    .receiver 0 (.recvSize true), .receiver 0 (.malloc 100),
    .receiver 0 (.recvData true fun _ => 0), .receiver 0 .pushed,
    .take, .wrap, .take, .wrap, .destroyWrapper 1,
    .receiver 0 (.status true), .receiver 0 (.poll .readable), .receiver 0 (.recvSize true),
    .receiver 0 (.malloc 101), .receiver 0 (.recvData true fun _ => 0), .receiver 0 .pushed,
    .receiver 1 .pushed, .receiver 1 (.status true), .receiver 1 (.poll .readable),
    .receiver 1 (.recvSize true), .receiver 1 (.malloc 102),
    .receiver 1 (.recvData true fun _ => 0), .receiver 1 .pushed,
    .stopServer, .joinListener, .receiver 0 .closed, .receiver 1 (.status false),
    .receiver 1 .pushed, .receiver 1 .closed, .stopReceivingThreads,
    .dispose, .dispose, .dispose, .dispose, .queueSyncDestroy, .destroyWrapper 0]

theorem receivedOnce_of_reach_stopWithQueue :
    ∃ s, Lts.run ReceivedBuffers.step stopWithQueue .initial = some s ∧
      s.returned.map Pushed.serial = [0, 1] ∧ s.disposed.map Pushed.serial = [5, 2, 3, 4] ∧
      released s.heap = [100, 101, 102] ∧ (s.returned ++ s.disposed).Perm s.pushed := by
  refine ⟨_, rfl, rfl, rfl, rfl, ?_⟩
  have hrun := (rfl : Lts.run ReceivedBuffers.step stopWithQueue .initial = some _)
  exact ((receivedOnce_of_reach _ (.of_run hrun)).2.2.2 rfl).1

end PRShooter
