import PRShooter.Descriptors

/-!
# Which receiver threads there are

`addClient` and `stopReceivingThreads` of `Server/server.c` with the thread ids of the records, and
the end of the server: the listener is joined, then the sender, then the receivers. `addClient`
pushes the record before it creates the thread. If that fails, the record stays RUNNING with the
socket already closed and an uninitialised thread id, which `stopReceivingThreads` joins later
(`consistent_iff_creates`).

`addClient` and `stopReceivingThreads` hold the lock of the clients from their first access to the
table to their last: in every state between two steps it is free.
-/

namespace PRShooter

/-! ## Data -/

/-- What the `pthread_create` of `addClient` does: it gives the id of a new thread, or it fails and
`thread_id` is whatever it was. -/
inductive PthreadCreate where
  | created (threadId : ℕ)
  | failed (threadId : ℕ)
  deriving DecidableEq

/-- What is stored as `thread_id`. -/
def PthreadCreate.threadId : PthreadCreate → ℕ
  | created threadId | failed threadId => threadId

/-- The new thread. -/
def PthreadCreate.thread : PthreadCreate → Option ℕ
  | created threadId => some threadId
  | failed _ => none

/-- Where `runServer` and `stopServer` are, once the listener has been created. -/
inductive Starter where
  /-- Before `startSendingThread`. -/
  | startSending
  /-- `runServer` has returned 0. -/
  | serving
  /-- After `setStop`; `sending` says whether there is a sender to join too. -/
  | joinListening (sending : Bool)
  | joinSending
  | stopReceivingThreads
  /-- In the loop of `pthread_join`, with the ids that are left. -/
  | joinReceiving (threadIds : List ℕ)
  | stopped
  deriving DecidableEq

/-- The server with its threads: for each client the `thread_id` of its record and the thread that
was created for it, and the ids `stopReceivingThreads` has joined. -/
structure ServerRun (M : Type) where
  server : Server M
  threadIds : List ℕ
  threads : List (Option ℕ)
  /-- The listener is in its loop. -/
  listening : Bool
  starter : Starter
  joined : List ℕ

inductive ServerRunLabel (M : Type) where
  | startSendingThread (created : Bool)
  /-- A step of the host, of the sender, of a receiver, or an `accept`. -/
  | server (label : ServerLabel M)
  | addClient (result : PthreadCreate)
  /-- The loop of the listener ends, also when `poll` fails. -/
  | stopListening (failed : Bool)
  /-- `stopServer` is called. -/
  | stopServer
  | stopReceivingThreads
  /-- The next `pthread_join` returns. -/
  | join

namespace ServerRun

variable {M : Type}

/-- The server when `startListeningThread` has succeeded. -/
def initial : ServerRun M :=
  { server := .initial, threadIds := [], threads := [], listening := true, starter := .startSending,
    joined := [] }

/-! ## Steps -/

/-- The thread has ended, if there is one of that id. -/
def Ended (s : ServerRun M) (threadId : ℕ) : Prop :=
  ∀ p ∈ s.threads.zip s.server.receivers, p.1 = some threadId → p.2 = .finished

instance (s : ServerRun M) (threadId : ℕ) : Decidable (s.Ended threadId) :=
  inferInstanceAs (Decidable (∀ p ∈ _, _))

/-- Whether the step is one of `ServerThreads` that another label does not stand for. -/
def steps (s : ServerRun M) : ServerLabel M → Bool
  | .accept _ => s.listening
  | .sender _ => s.starter ≠ .startSending
  | .sendTo _ | .sendToEveryone _ | .closeSocket _ | .stopClient _ => true
  | .addClient _ | .setStop | .stopReceivingThreads => false

/-- The next `pthread_join`. For an id that is no thread it fails and `perror` is called. -/
def join (s : ServerRun M) : Option (ServerRun M) :=
  match s.starter with
  | .joinListening sending =>
    if s.listening then none
    else some { s with starter := if sending then .joinSending else .stopReceivingThreads }
  | .joinSending =>
    match s.server.sender with
    | .done => some { s with starter := .stopReceivingThreads }
    | _ => none
  | .joinReceiving [] => some { s with starter := .stopped }
  | .joinReceiving (threadId :: threadIds) =>
    if s.Ended threadId then
      some { s with starter := .joinReceiving threadIds, joined := s.joined ++ [threadId] }
    else none
  | _ => none

/-- One step. No receiver is joined while there is a listener, so a new thread has an id that no
other receiver ever had. -/
def step (s : ServerRun M) : ServerRunLabel M → Option (ServerRun M)
  | .startSendingThread created =>
    if s.starter = .startSending then
      if created then some { s with starter := .serving }
      else
        some { s with
          server := { s.server with stopped := true, sender := .done }
          starter := .joinListening false }
    else none
  | .server label =>
    if s.steps label then (s.server.step label).map fun server => { s with server } else none
  | .addClient result =>
    if s.listening ∧ (result.thread.isSome → result.thread ∉ s.threads) then
      (s.server.step (.addClient result.thread.isSome)).map fun server =>
        { s with
          server
          threadIds := s.threadIds ++ [result.threadId]
          threads := s.threads ++ [result.thread] }
    else none
  | .stopListening failed =>
    if s.server.listener = .accepting ∧ (s.server.stopped ∨ failed) then
      some { s with listening := false }
    else none
  | .stopServer =>
    if s.starter = .serving then
      (s.server.step .setStop).map fun server =>
        { s with server, starter := .joinListening true }
    else none
  | .stopReceivingThreads =>
    if s.starter = .stopReceivingThreads then
      (s.server.step .stopReceivingThreads).map fun server =>
        { s with server, starter := .joinReceiving s.threadIds }
    else none
  | .join => s.join

/-! ## What is to hold -/

/-- A thread was created for client `i` and has not finished. -/
def HasThread (s : ServerRun M) (i : ℕ) : Prop :=
  (∃ threadId, s.threads[i]? = some (some threadId)) ∧
    (s.server.receivers[i]? = some .running ∨ s.server.receivers[i]? = some .socketClosed)

/-- Every RUNNING record has its thread, and `stopReceivingThreads` joins every thread once and
nothing else. -/
structure Consistent (s : ServerRun M) : Prop where
  running : ∀ (i : ℕ) (client : ClientRecord), s.server.clients[i]? = some client →
    client.status = .running → s.HasThread i
  once : s.joined.Nodup
  created : ∀ threadId ∈ s.joined, some threadId ∈ s.threads
  every : s.starter = .stopped → ∀ threadId, some threadId ∈ s.threads → threadId ∈ s.joined

/-- No `pthread_create` fails in `addClient`. -/
def Creates (_ : ServerRun M) : ServerRunLabel M → Prop
  | .addClient (.failed _) => False
  | _ => True

instance (s : ServerRun M) : (l : ServerRunLabel M) → Decidable (s.Creates l)
  | .addClient (.failed _) => .isFalse id
  | .addClient (.created _) | .startSendingThread _ | .server _ | .stopListening _ | .stopServer
  | .stopReceivingThreads | .join => .isTrue trivial

end ServerRun

/-! ## The table and the receivers -/

namespace Server

variable {M : Type} {s t : Server M}

/-- Every RUNNING record has a receiver that has not marked it yet. -/
structure Staffed (s : Server M) : Prop where
  length : s.clients.length = s.receivers.length
  running : ∀ (i : ℕ) (client : ClientRecord), s.clients[i]? = some client →
    client.status = .running →
      s.receivers[i]? = some .running ∨ s.receivers[i]? = some .socketClosed

theorem staffed_initial : (initial : Server M).Staffed := ⟨rfl, nofun⟩

/-- A step that starts no client and no thread. -/
theorem Staffed.of_runningFrom (h : s.Staffed) (hlength : t.clients.length = s.clients.length)
    (hrunning : RunningFrom s.clients t.clients) (hreceivers : t.receivers = s.receivers) :
    t.Staffed := by
  refine ⟨by rw [hlength, hreceivers, h.length], fun i client hclient hrun => ?_⟩
  rw [hreceivers]
  exact h.running i client (hrunning i client hclient hrun) hrun

theorem Staffed.same (h : s.Staffed) (hclients : t.clients = s.clients)
    (hreceivers : t.receivers = s.receivers) : t.Staffed := by
  refine h.of_runningFrom (by rw [hclients]) ?_ hreceivers
  rw [hclients]
  intro _ _ hclient _
  exact hclient

theorem receivers_send (s : Server M) (ok : Bool) (job : Job M) :
    (s.send ok job).receivers = s.receivers := by
  unfold send
  split
  · split_ifs <;> rfl
  · rfl

theorem receivers_senderStep {ok : Bool} (h : s.senderStep ok = some t) :
    t.receivers = s.receivers := by
  cases hs : s.sender <;> simp only [senderStep, hs, reduceCtorEq, Option.some.injEq] at h
  case popIndividual | getClient =>
    obtain ⟨_, -, rfl⟩ := Option.map_eq_some_iff.mp h
    rfl
  case serve jobs =>
    cases jobs with
    | nil => exact Option.some.inj h ▸ rfl
    | cons job jobs =>
      simp only at h
      split_ifs at h <;> exact Option.some.inj h ▸ rfl
  case sendSize job jobs => exact h ▸ receivers_send s ok job
  case sendData job jobs => exact h ▸ receivers_send s ok job
  all_goals exact h ▸ rfl

theorem Staffed.addClient (h : s.Staffed) (fd conn : ℕ) : (s.addClient fd conn true).Staffed := by
  refine ⟨by simp [Server.addClient, h.length], fun i client hclient hrun => ?_⟩
  show (s.receivers ++ [.running])[i]? = _ ∨ (s.receivers ++ [.running])[i]? = _
  rcases Nat.lt_or_ge i s.clients.length with hi | hi
  · rw [List.getElem?_append_left (h.length ▸ hi)]
    exact h.running i client ((List.getElem?_append_left hi).symm.trans hclient) hrun
  · have hlt := (List.getElem?_eq_some_iff.mp hclient).1
    simp only [Server.addClient, List.length_append, List.length_singleton] at hlt
    obtain rfl : i = s.receivers.length := by
      rw [← h.length]
      omega
    exact .inl List.getElem?_concat_length

/-- Only an `addClient` that fails leaves a RUNNING record without a receiver. -/
theorem staffed_step {l : ServerLabel M} (h : s.Staffed) (hl : l ≠ .addClient false)
    (hstep : s.step l = some t) : t.Staffed := by
  cases l with
  | sendTo msg | sendToEveryone message | accept fd =>
    simp only [step] at hstep
    split_ifs at hstep
    exact Option.some.inj hstep ▸ h.same rfl rfl
  | addClient created =>
    obtain rfl : created = true := by simpa using hl
    simp only [step] at hstep
    split at hstep
    next fd conn hlistener => exact Option.some.inj hstep ▸ h.addClient fd conn
    next => cases hstep
  | closeSocket i =>
    simp only [step] at hstep
    split at hstep
    next client hreceiver hclient =>
      obtain rfl := Option.some.inj hstep
      refine ⟨by simp [h.length], fun j client' hclient' hrun => ?_⟩
      rcases eq_or_ne i j with rfl | hij
      · right
        exact List.getElem?_set_self (List.getElem?_eq_some_iff.mp hreceiver).1
      · rw [List.getElem?_set_ne hij]
        exact h.running j client' hclient' hrun
    next => cases hstep
  | stopClient i =>
    simp only [step] at hstep
    split_ifs at hstep
    obtain rfl := Option.some.inj hstep
    refine ⟨by simp [setStatus, h.length], fun j client hclient hrun => ?_⟩
    rcases eq_or_ne i j with rfl | hij
    · simp only [setStatus, List.getElem?_modify_eq] at hclient
      obtain ⟨old, -, rfl⟩ := Option.map_eq_some_iff.mp hclient
      cases hrun
    · rw [List.getElem?_set_ne hij]
      have hold := runningFrom_setStatus s i ThreadStatus.noConfusion j client hclient hrun
      exact h.running j client hold hrun
  | setStop => exact Option.some.inj hstep ▸ h.same rfl rfl
  | stopReceivingThreads =>
    simp only [step] at hstep
    split at hstep
    · obtain rfl := Option.some.inj hstep
      refine h.of_runningFrom (List.length_map _) (fun i client hclient hrun => ?_) rfl
      obtain ⟨old, -, rfl⟩ := List.mem_map.mp (List.mem_of_getElem? hclient)
      cases hrun
    · cases hstep
  | sender ok =>
    have hsame := sameDescriptors_senderStep hstep
    exact h.of_runningFrom hsame.length hsame.running (receivers_senderStep hstep)

theorem length_step {l : ServerLabel M} (hl : ∀ created, l ≠ .addClient created)
    (hstep : s.step l = some t) : t.clients.length = s.clients.length := by
  cases plumbing_of_step hstep with
  | same h => exact h.length
  | accept fd | closeSocket i fd receivers => rfl
  | addClient fd conn created => exact absurd rfl (hl created)

theorem length_addClient {created : Bool} (hstep : s.step (.addClient created) = some t) :
    t.clients.length = s.clients.length + 1 ∧ t.clients[s.clients.length]?.map (·.status) =
      some .running := by
  simp only [step] at hstep
  split at hstep
  next fd conn hlistener =>
    obtain rfl := Option.some.inj hstep
    simp [addClient]
  next => cases hstep

end Server

/-! ## Runs in which every thread is created -/

/-- The listener may still be there. -/
def Starter.early : Starter → Bool
  | .startSending | .serving | .joinListening _ => true
  | _ => false

/-- The ids that are still to be joined, of those of all records. -/
def Starter.toJoin (all : List ℕ) : Starter → List ℕ
  | .joinReceiving threadIds => threadIds
  | .stopped => []
  | _ => all

theorem Starter.toJoin_of_early {starter : Starter} (h : starter.early = true) (all : List ℕ) :
    starter.toJoin all = all := by
  cases starter <;> first | rfl | cases h

namespace ServerRun

variable {M : Type} {s t : ServerRun M} {l : ServerRunLabel M}

/-- Each record has the id of its own thread, and they are joined one after another. -/
structure Inv (s : ServerRun M) : Prop where
  staffed : s.server.Staffed
  length : s.threadIds.length = s.server.clients.length
  threads : s.threads = s.threadIds.map some
  nodup : s.threadIds.Nodup
  listening : s.listening = true → s.starter.early = true
  joins : s.joined ++ s.starter.toJoin s.threadIds = s.threadIds

theorem inv_initial : (initial : ServerRun M).Inv :=
  ⟨Server.staffed_initial, rfl, rfl, List.nodup_nil, fun _ => rfl, rfl⟩

theorem Inv.consistent (h : s.Inv) : s.Consistent where
  running i client hclient hrun := by
    have hi : i < s.threadIds.length := h.length ▸ (List.getElem?_eq_some_iff.mp hclient).1
    refine ⟨⟨s.threadIds[i], ?_⟩, h.staffed.running i client hclient hrun⟩
    simp [h.threads, hi]
  once := by
    have hnodup := h.nodup
    rw [← h.joins] at hnodup
    exact hnodup.of_append_left
  created threadId hmem := by
    rw [h.threads, ← h.joins]
    exact List.mem_map_of_mem (List.mem_append_left _ hmem)
  every hstopped threadId hmem := by
    have hall := h.joins
    rw [hstopped] at hall
    rw [h.threads, ← hall] at hmem
    simpa [Starter.toJoin] using hmem

/-- A step of the server that leaves the threads as they are. -/
theorem Inv.server (h : s.Inv) {l : ServerLabel M} (hl : ∀ created, l ≠ .addClient created)
    {server : Server M} (hstep : s.server.step l = some server) : { s with server }.Inv :=
  { h with
    staffed := Server.staffed_step h.staffed (hl false) hstep
    length := by rw [h.length, Server.length_step hl hstep] }

/-- Going on to a place with the same ids left to join. -/
theorem Inv.goto (h : s.Inv) {starter : Starter}
    (hearly : s.starter.early = true → starter.early = true ∨ s.listening = false)
    (hjoin : starter.toJoin s.threadIds = s.starter.toJoin s.threadIds) :
    { s with starter }.Inv := by
  refine { h with listening := fun hlistening => ?_, joins := ?_ }
  · rcases hearly (h.listening hlistening) with hstarter | hnot
    · exact hstarter
    · rw [hnot] at hlistening
      cases hlistening
  · show s.joined ++ starter.toJoin s.threadIds = s.threadIds
    rw [hjoin]
    exact h.joins

theorem inv_join (h : s.Inv) (hstep : s.join = some t) : t.Inv := by
  unfold join at hstep
  cases hs : s.starter with
  | startSending | serving | stopReceivingThreads | stopped =>
    rw [hs] at hstep
    cases hstep
  | joinListening sending =>
    simp only [hs] at hstep
    split_ifs at hstep with hlistening
    all_goals
      obtain rfl := Option.some.inj hstep
      refine h.goto (fun _ => .inr (by simpa using hlistening)) ?_
      rw [hs]
      rfl
  | joinSending =>
    simp only [hs] at hstep
    split at hstep
    · obtain rfl := Option.some.inj hstep
      refine h.goto (fun hearly => ?_) (by rw [hs]; rfl)
      rw [hs] at hearly
      cases hearly
    · cases hstep
  | joinReceiving threadIds =>
    have hnot : s.starter.early = false := by rw [hs]; rfl
    cases threadIds with
    | nil =>
      simp only [hs] at hstep
      obtain rfl := Option.some.inj hstep
      exact h.goto (fun hearly => by rw [hnot] at hearly; cases hearly) (by rw [hs]; rfl)
    | cons threadId threadIds =>
      simp only [hs] at hstep
      split_ifs at hstep
      obtain rfl := Option.some.inj hstep
      refine { h with listening := fun hlistening => ?_, joins := ?_ }
      · have hearly := h.listening hlistening
        rw [hnot] at hearly
        cases hearly
      · have hjoins := h.joins
        rw [hs] at hjoins
        show s.joined ++ [threadId] ++ threadIds = s.threadIds
        rw [List.append_assoc]
        exact hjoins

theorem inv_addClient (h : s.Inv) {threadId : ℕ}
    (hstep : s.step (.addClient (.created threadId)) = some t) : t.Inv := by
  simp only [step] at hstep
  split_ifs at hstep with hcond
  obtain ⟨server, hserver, rfl⟩ := Option.map_eq_some_iff.mp hstep
  obtain ⟨hlistening, hfresh⟩ := hcond
  have hearly := h.listening hlistening
  have hnone : s.joined = [] := by
    have hjoins := h.joins
    rw [Starter.toJoin_of_early hearly] at hjoins
    exact List.append_left_eq_self.mp hjoins
  have hnew : threadId ∉ s.threadIds := by
    have := hfresh rfl
    rw [h.threads] at this
    intro hmem
    exact this (List.mem_map_of_mem hmem)
  refine ⟨Server.staffed_step h.staffed (by simp [PthreadCreate.thread]) hserver, ?_, ?_, ?_,
    fun _ => hearly, ?_⟩
  · show (s.threadIds ++ [threadId]).length = _
    rw [List.length_append, h.length, (Server.length_addClient hserver).1]
    rfl
  · show s.threads ++ [some threadId] = _
    rw [h.threads]
    simp [PthreadCreate.threadId]
  · refine List.nodup_append.mpr ⟨h.nodup, List.nodup_singleton _, fun a ha b hb hab => hnew ?_⟩
    obtain rfl : b = threadId := List.mem_singleton.mp hb
    exact hab ▸ ha
  · show s.joined ++ s.starter.toJoin _ = _
    rw [hnone, Starter.toJoin_of_early hearly, List.nil_append]

theorem inv_step (h : s.Inv) (hok : s.Creates l) (hstep : s.step l = some t) : t.Inv := by
  cases l with
  | startSendingThread created =>
    simp only [step] at hstep
    split_ifs at hstep with hs hcreated <;> obtain rfl := Option.some.inj hstep
    · exact h.goto (fun _ => .inl rfl) (by rw [hs]; rfl)
    · have hserver : { s with server := { s.server with stopped := true, sender := .done } }.Inv :=
        { h with staffed := h.staffed.same rfl rfl }
      exact hserver.goto (fun _ => .inl rfl) (by rw [hs]; rfl)
  | server label =>
    simp only [step] at hstep
    split_ifs at hstep with hlabel
    obtain ⟨server, hserver, rfl⟩ := Option.map_eq_some_iff.mp hstep
    refine h.server (fun created hl => ?_) hserver
    rw [hl] at hlabel
    cases hlabel
  | addClient result =>
    cases result with
    | created threadId => exact inv_addClient h hstep
    | failed threadId => cases hok
  | stopListening failed =>
    simp only [step] at hstep
    split_ifs at hstep
    obtain rfl := Option.some.inj hstep
    exact { h with listening := fun hlistening => by cases hlistening }
  | stopServer =>
    simp only [step] at hstep
    split_ifs at hstep with hs
    obtain ⟨server, hserver, rfl⟩ := Option.map_eq_some_iff.mp hstep
    have hinv : { s with server }.Inv := h.server (by simp) hserver
    exact hinv.goto (fun _ => .inl rfl) (by rw [hs]; rfl)
  | stopReceivingThreads =>
    simp only [step] at hstep
    split_ifs at hstep with hs
    obtain ⟨server, hserver, rfl⟩ := Option.map_eq_some_iff.mp hstep
    have hinv : { s with server }.Inv := h.server (by simp) hserver
    refine hinv.goto (fun hearly => ?_) (by rw [hs]; rfl)
    rw [hs] at hearly
    cases hearly
  | join => exact inv_join h hstep

/-! ## A thread that is not created -/

/-- The new record is RUNNING and has no thread. -/
theorem creates_of_consistent (h : s.Inv) (hstep : s.step l = some t) (ht : t.Consistent) :
    s.Creates l := by
  cases l with
  | addClient result =>
    cases result with
    | created threadId => trivial
    | failed threadId =>
      simp only [step] at hstep
      split_ifs at hstep
      obtain ⟨server, hserver, rfl⟩ := Option.map_eq_some_iff.mp hstep
      obtain ⟨client, hclient, hrun⟩ :=
        Option.map_eq_some_iff.mp (Server.length_addClient hserver).2
      obtain ⟨⟨id, hid⟩, -⟩ := ht.running _ client hclient hrun
      have hlength : s.server.clients.length = s.threads.length := by
        rw [h.threads, List.length_map, h.length]
      rw [hlength] at hid
      simp [PthreadCreate.thread] at hid
  | startSendingThread | server | stopListening | stopServer | stopReceivingThreads | join => trivial

/-- **Receiver threads.** In a run, every RUNNING record has its thread in every state and
`stopReceivingThreads` joins every thread once and nothing else, if and only if no `pthread_create`
fails in `addClient`. -/
theorem consistent_iff_creates (ls : List (ServerRunLabel M)) (t : ServerRun M)
    (h : Lts.run step ls initial = some t) :
    Lts.Always step Consistent ls initial ↔ Lts.Along step Creates ls initial :=
  Lts.always_iff_along_of_invariant (fun _ => Inv.consistent)
    (fun _ _ _ hI hok hstep => inv_step hI hok hstep)
    (fun _ _ _ hI hstep ht => creates_of_consistent hI hstep ht) h inv_initial

/-- `stopServer` until the sender has been joined. -/
def stopSending : List (ServerRunLabel M) :=
  [.stopServer, .stopListening false, .join, .server (.sender true), .server (.sender true), .join]

/-- Client 0 leaves by itself, and client 1 when the server is stopped. -/
def twoClients : List (ServerRunLabel Unit) :=
  [.startSendingThread true, .server (.accept 5), .addClient (.created 100), .server (.accept 6),
    .addClient (.created 101), .server (.closeSocket 0), .server (.stopClient 0)] ++ stopSending ++
  [.stopReceivingThreads, .join, .server (.closeSocket 1), .server (.stopClient 1), .join, .join]

theorem consistent_iff_creates_twoClients :
    Lts.Always step Consistent twoClients initial ∧
      ∃ t, Lts.run step twoClients initial = some t ∧ t.starter = .stopped ∧
        t.joined = [100, 101] :=
  ⟨(consistent_iff_creates twoClients _ rfl).mpr (by decide), _, rfl, rfl, rfl⟩

/-- `pthread_create` fails for client 0. -/
def failedClient : List (ServerRunLabel Unit) :=
  [.startSendingThread true, .server (.accept 5), .addClient (.failed 77)]

/-- The record stays RUNNING while its socket is closed and there is no thread, and in the end
something is joined that was never created. -/
theorem joins_what_was_not_created :
    (∃ s : ServerRun Unit, Lts.run step failedClient initial = some s ∧ ¬ s.Consistent ∧
      s.server.clients = [⟨5, .running⟩] ∧ s.server.fds 5 = none ∧ s.threads = [none]) ∧
    ∃ s : ServerRun Unit, Lts.run step
        (failedClient ++ stopSending ++ [.stopReceivingThreads, .join, .join]) initial = some s ∧
      s.starter = .stopped ∧ s.threads = [none] ∧ s.joined = [77] := by
  refine ⟨⟨_, rfl, fun h => ?_, rfl, rfl, rfl⟩, _, rfl, rfl, rfl, rfl⟩
  obtain ⟨⟨threadId, hthread⟩, -⟩ := h.running 0 ⟨5, .running⟩ rfl rfl
  cases hthread

end ServerRun

end PRShooter
