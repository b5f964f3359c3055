import PRShooter.ServerThreads

/-!
# The moves of the server

What one step of the server can do to the mailboxes, the sender and the table of the clients, as
one case for each kind of step (`Server.Move`), and that every step is one of them
(`Server.move_of_step`). What holds over every run is then proved move by move.
-/

namespace PRShooter

variable {M : Type}

/-! ## The table of the clients -/

/-- No client of the table has started to run again. -/
def Aged (clients clients' : List ClientRecord) : Prop :=
  ∀ (i : ℕ) (client : ClientRecord), clients[i]? = some client →
    ∃ client', clients'[i]? = some client' ∧
      (client.status ≠ .running → client'.status ≠ .running)

theorem Aged.refl (clients : List ClientRecord) : Aged clients clients :=
  fun _ client h => ⟨client, h, id⟩

theorem aged_setStatus (s : Server M) (i : ℕ) {status : ThreadStatus} (h : status ≠ .running) :
    Aged s.clients (s.setStatus i status).clients := by
  intro j client hj
  unfold Server.setStatus
  rw [List.getElem?_modify, hj]
  by_cases hij : i = j
  · exact ⟨{ client with status }, by simp [hij], fun _ => h⟩
  · exact ⟨client, by simp [hij], id⟩

theorem aged_addClient (clients : List ClientRecord) (client : ClientRecord) :
    Aged clients (clients ++ [client]) := by
  intro i c hi
  refine ⟨c, ?_, id⟩
  rw [List.getElem?_append_left (List.getElem?_eq_some_iff.mp hi).1, hi]

theorem aged_stopReceivingThreads (clients : List ClientRecord) :
    Aged clients (clients.map fun client => { client with status := .stop }) := by
  intro i client hi
  exact ⟨{ client with status := .stop }, by simp [hi], fun _ => ThreadStatus.noConfusion⟩

/-! ## Steps of the table -/

/-- A step of the listener, of a receiver or of a stop. -/
def ServerLabel.table : ServerLabel M → Bool
  | .sendTo _ | .sendToEveryone _ | .sender _ => false
  | _ => true

/-- The step leaves the mailboxes, the sender and the log alone and starts no client again. -/
structure TableStep (s t : Server M) : Prop where
  aged : Aged s.clients t.clients
  outgoing : t.outgoing = s.outgoing
  everyone : t.everyone = s.everyone
  calls : t.everyoneCalls = s.everyoneCalls
  log : t.log = s.log
  sender : t.sender = s.sender
  stopped : s.stopped = true → t.stopped = true

theorem tableStep_of_step {s t : Server M} {l : ServerLabel M} (hl : l.table = true)
    (h : s.step l = some t) : TableStep s t := by
  cases l with
  | sendTo | sendToEveryone | sender => cases hl
  | accept fd =>
    simp only [Server.step] at h
    split_ifs at h
    exact Option.some.inj h ▸ ⟨.refl _, rfl, rfl, rfl, rfl, rfl, id⟩
  | addClient created =>
    simp only [Server.step] at h
    split at h
    · exact Option.some.inj h ▸ ⟨aged_addClient _ _, rfl, rfl, rfl, rfl, rfl, id⟩
    · cases h
  | closeSocket i =>
    simp only [Server.step] at h
    split at h
    · exact Option.some.inj h ▸ ⟨.refl _, rfl, rfl, rfl, rfl, rfl, id⟩
    · cases h
  | stopClient i =>
    simp only [Server.step] at h
    split_ifs at h
    have haged : Aged s.clients (s.setStatus i .stopped).clients :=
      aged_setStatus s i ThreadStatus.noConfusion
    exact Option.some.inj h ▸ ⟨haged, rfl, rfl, rfl, rfl, rfl, id⟩
  | setStop => exact Option.some.inj h ▸ ⟨.refl _, rfl, rfl, rfl, rfl, rfl, fun _ => rfl⟩
  | stopReceivingThreads =>
    simp only [Server.step] at h
    split at h
    · exact Option.some.inj h ▸
        ⟨aged_stopReceivingThreads _, rfl, rfl, rfl, rfl, rfl, id⟩
    · cases h

/-! ## The moves -/

/-- The sender is between two messages, outside the critical section of `outgoing_queue`. -/
def Sender.idle : Sender M → Bool
  | .head | .lockMessage | .waitQueue | .waitSlot | .waiting | .woken | .lockQueue | .drain => true
  | _ => false

/-- The calls of `sendMessageTo` that have not been made yet. -/
def Sender.remaining : Sender M → List (Job M)
  | .serve jobs | .sendSize _ jobs | .sendData _ jobs => jobs
  | _ => []

/-- The sender returns from one `send` of `sendMessageTo`. -/
inductive Sender.Sends (job : Job M) (jobs : List (Job M)) : Sender M → Sender M → Prop
  | size : Sends job jobs (.sendSize job jobs) (.sendData job jobs)
  | data : Sends job jobs (.sendData job jobs) (.serve jobs)

namespace Server

/-- What a step can do, as far as messages are concerned. -/
inductive Move (s : Server M) : Server M → Prop
  | sendTo (msg : IndividualMessage M) (hfree : s.sender.holdsQueue = false) :
    Move s { s with
      outgoing := queueSyncPushBack s.outgoing msg
      log := s.log ++ [.sendTo msg] }
  | sendToEveryone (message : M) (hfree : s.sender.holdsMessage = false) :
    Move s { s with
      everyone := some ⟨message, s.everyoneCalls⟩
      everyoneCalls := s.everyoneCalls + 1
      log := s.log ++ [.sendToEveryone message] }
  /-- A step of the listener, of a receiver or of a stop. -/
  | table {t : Server M} (haged : Aged s.clients t.clients) (houtgoing : t.outgoing = s.outgoing)
      (heveryone : t.everyone = s.everyone) (hcalls : t.everyoneCalls = s.everyoneCalls)
      (hlog : t.log = s.log) (hsender : t.sender = s.sender) : Move s t
  | control (next : Sender M) (hs : s.sender.idle = true ∨ s.sender = .serve [])
      (hnext : next.idle = true)
      (hready : next = .lockQueue → s.outgoing ≠ [] ∨ s.everyone.isSome) :
    Move s { s with sender := next }
  | lockQueue (hs : s.sender = .lockQueue) : Move s { s with sender := .checkQueue }
  | found (hs : s.sender = .checkQueue) :
    Move s { s with
      sender := if queueSyncIsEmpty s.outgoing then .popEveryone else .popIndividual
      log := s.log ++ [.found (queueSyncIsEmpty s.outgoing)] }
  | popIndividual (msg : IndividualMessage M) (rest : List (IndividualMessage M))
      (hs : s.sender = .popIndividual) (hqueue : s.outgoing = msg :: rest) :
    Move s { s with
      outgoing := rest
      sender := .getClient msg
      log := s.log ++ [.popIndividual msg] }
  | getClient (msg : IndividualMessage M) (client : ClientRecord)
      (hs : s.sender = .getClient msg) (hclient : s.clients[msg.clientId]? = some client) :
    Move s { s with sender := .serve [⟨msg.clientId, client, .individual msg.message⟩] }
  | popEveryone (hs : s.sender = .popEveryone) :
    Move s { s with
      everyone := none
      sender := .getAllClients s.everyone
      log := s.log ++ [.popEveryone s.everyone] }
  | getAllClients (b : Option (Broadcast M)) (hs : s.sender = .getAllClients b) :
    Move s { s with sender := .serve (broadcastJobs s.clients b) }
  | attempt (job : Job M) (jobs : List (Job M)) (hs : s.sender = .serve (job :: jobs))
      (hrunning : job.client.status = .running) :
    Move s { s with
      sender := .sendSize job jobs
      log := s.log ++ [.attempt job.clientId job.payload] }
  | skip (job : Job M) (jobs : List (Job M)) (hs : s.sender = .serve (job :: jobs))
      (hstopped : job.client.status ≠ .running) : Move s { s with sender := .serve jobs }
  | send {t : Server M} (job : Job M) (jobs : List (Job M))
      (hs : Sender.Sends job jobs s.sender t.sender)
      (haged : Aged s.clients t.clients) (houtgoing : t.outgoing = s.outgoing)
      (heveryone : t.everyone = s.everyone) (hcalls : t.everyoneCalls = s.everyoneCalls)
      (hlog : t.log = s.log ∨ ∃ conn, s.fds job.client.socket = some conn ∧
        t.log = s.log ++ [.written job.clientId conn]) : Move s t
  | drain (hs : s.sender = .drain) : Move s { s with outgoing := [], sender := .done }

/-! ## Every step is a move -/

theorem move_send {s : Server M} {ok : Bool} {job : Job M} {jobs : List (Job M)} {next : Sender M}
    (hs : Sender.Sends job jobs s.sender next) : s.Move { s.send ok job with sender := next } := by
  have hsignal : s.Move { s.signalClientToStop job.clientId with sender := next } :=
    .send job jobs hs (aged_setStatus s _ ThreadStatus.noConfusion) rfl rfl rfl (.inl rfl)
  unfold send
  split
  next conn hconn =>
    split_ifs
    · exact .send job jobs hs (.refl _) rfl rfl rfl (.inr ⟨conn, hconn, rfl⟩)
    · exact hsignal
  next => exact hsignal

theorem move_senderStep {s t : Server M} {ok : Bool} (h : s.senderStep ok = some t) :
    s.Move t := by
  cases hs : s.sender <;> simp only [senderStep, hs, reduceCtorEq, Option.some.injEq] at h
  case head =>
    subst h
    exact .control _ (.inl (by rw [hs]; rfl)) (by split_ifs <;> rfl)
      (by split_ifs <;> exact nofun)
  case lockMessage => exact h ▸ .control _ (.inl (by rw [hs]; rfl)) rfl nofun
  case waitQueue =>
    subst h
    refine .control _ (.inl (by rw [hs]; rfl)) (by split_ifs <;> rfl) ?_
    split_ifs with hempty
    · exact nofun
    · intro _
      exact .inl (by simpa [queueSyncIsEmpty] using hempty)
  case waitSlot =>
    subst h
    refine .control _ (.inl (by rw [hs]; rfl)) (by split_ifs <;> rfl) ?_
    split_ifs with hnone
    · exact nofun
    · intro _
      exact .inr (by simpa [Option.isSome_iff_ne_none] using hnone)
  case waiting => exact h ▸ .control _ (.inl (by rw [hs]; rfl)) rfl nofun
  case woken =>
    subst h
    exact .control _ (.inl (by rw [hs]; rfl)) (by split_ifs <;> rfl)
      (by split_ifs <;> exact nofun)
  case lockQueue => exact h ▸ .lockQueue hs
  case checkQueue => exact h ▸ .found hs
  case popIndividual =>
    obtain ⟨⟨msg, rest⟩, hpop, rfl⟩ := Option.map_eq_some_iff.mp h
    exact .popIndividual msg rest hs (queueSyncPopFront_eq_some.mp hpop)
  case getClient msg =>
    obtain ⟨client, hclient, rfl⟩ := Option.map_eq_some_iff.mp h
    exact .getClient msg client hs hclient
  case popEveryone => exact h ▸ .popEveryone hs
  case getAllClients b => exact h ▸ .getAllClients b hs
  case serve jobs =>
    cases jobs with
    | nil =>
      obtain rfl := Option.some.inj h
      exact .control _ (.inr hs) rfl nofun
    | cons job jobs =>
      simp only at h
      split_ifs at h with hrunning
      · exact Option.some.inj h ▸ .attempt job jobs hs hrunning
      · exact Option.some.inj h ▸ .skip job jobs hs hrunning
  case sendSize job jobs => exact h ▸ move_send (by rw [hs]; exact .size)
  case sendData job jobs => exact h ▸ move_send (by rw [hs]; exact .data)
  case drain => exact h ▸ .drain hs

/-- Every step is a move. -/
theorem move_of_step {s t : Server M} {l : ServerLabel M} (h : s.step l = some t) : s.Move t := by
  cases l with
  | sendTo msg =>
    simp only [step] at h
    split_ifs at h with hheld
    exact Option.some.inj h ▸ .sendTo msg (by simpa using hheld)
  | sendToEveryone message =>
    simp only [step] at h
    split_ifs at h with hheld
    exact Option.some.inj h ▸ .sendToEveryone message (by simpa using hheld)
  | accept | addClient | closeSocket | stopClient | setStop | stopReceivingThreads =>
    have htable := tableStep_of_step rfl h
    exact .table htable.aged htable.outgoing htable.everyone htable.calls htable.log htable.sender
  | sender ok => exact move_senderStep h

theorem mem_broadcastJobs {clients : List ClientRecord} {b : Option (Broadcast M)} {job : Job M} :
    job ∈ broadcastJobs clients b ↔
      clients[job.clientId]? = some job.client ∧ job.payload = .everyone b := by
  simp only [broadcastJobs, List.mem_map, Prod.exists, List.mem_zipIdx_iff_getElem?]
  constructor
  · rintro ⟨client, i, hi, rfl⟩
    exact ⟨hi, rfl⟩
  · rintro ⟨hi, hpayload⟩
    exact ⟨job.client, job.clientId, hi, by rw [← hpayload]⟩

end Server

end PRShooter
