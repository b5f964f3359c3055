import PRShooter.Ownership
import PRShooter.SenderMoves

/-!
# The buffers of the messages sent

Every message handed to `sendTo` or `sendToEveryone` owns a buffer which the server has to give back
to the deallocator. It is released when a newer broadcast overwrites it, when the sender has sent
it, or after the loop of the sender. `SentBuffers` runs the server beside its heap; if the host
calls nothing after `stopServer`, each buffer is released exactly once and never read afterwards
(`releasedOnce_of_reach`).
-/

namespace PRShooter

open Ownership

variable {M : Type}

/-! ## The heap beside the server -/

/-- `msg.data` in `sendMessageTo`. -/
def Payload.data : Payload M → Option M
  | .individual message => some message
  | .everyone broadcast => broadcast.map Broadcast.message

namespace Server

/-- `message_to_everyone.data`. -/
def everyoneData (s : Server M) : Option M := s.everyone.map Broadcast.message

/-- The buffers of the messages in `outgoing_queue`. -/
def outgoingData (s : Server M) : List M := s.outgoing.map IndividualMessage.message

/-- What a step of `startSending` does to buffers, if the one it has popped is `popped`: `send`
reads the data, `freeOutgoingMessage` releases it. -/
def senderHeap (s : Server M) (popped : Option M) : List (Event M) :=
  match s.sender with
  | .sendData job _ => job.payload.data.toList.map .used
  | .serve [] => popped.toList.map .released
  | .drain => (s.outgoingData ++ s.everyoneData.toList).map .released
  | _ => []

/-- The buffer of `ind_msg` or `msg` after a step of `startSending`. -/
def senderPopped (s : Server M) (popped : Option M) : Option M :=
  match s.sender with
  | .popIndividual => s.outgoingData.head?
  | .popEveryone => s.everyoneData
  | .serve [] => none
  | _ => popped

end Server

/-- The server, the buffer of the message that the sender has popped, and what has happened to
buffers so far. -/
structure SentBuffers (M : Type) where
  server : Server M
  popped : Option M
  heap : List (Event M)

namespace SentBuffers

def initial : SentBuffers M := ⟨Server.initial, none, []⟩

variable [DecidableEq M]

/-- One step of the server. The host hands over a buffer of its own with every call. -/
def step (s : SentBuffers M) : ServerLabel M → Option (SentBuffers M)
  | .sendTo msg =>
    if msg.message ∈ acquired s.heap then none
    else
      (s.server.step (.sendTo msg)).map fun server =>
        { s with server, heap := s.heap ++ [.acquired msg.message] }
  | .sendToEveryone message =>
    if message ∈ acquired s.heap then none
    else
      (s.server.step (.sendToEveryone message)).map fun server =>
        { s with
          server
          heap := s.heap ++ [.acquired message] ++ s.server.everyoneData.toList.map .released }
  | .sender ok =>
    (s.server.step (.sender ok)).map fun server =>
      ⟨server, s.server.senderPopped s.popped, s.heap ++ s.server.senderHeap s.popped⟩
  | l => (s.server.step l).map fun server => { s with server }

end SentBuffers

/-- The host sends before it calls `stopServer`. -/
def sentBeforeStop (s : SentBuffers M) : ServerLabel M → Prop
  | .sendTo _ | .sendToEveryone _ => s.server.stopped = false
  | _ => True

/-! ## Who owns a buffer -/

/-- The sender has popped no message. -/
def Sender.emptyHanded : Sender M → Bool
  | .getClient _ | .getAllClients _ | .serve _ | .sendSize _ _ | .sendData _ _ => false
  | _ => true

/-- The sender is between two messages. -/
def Sender.between : Sender M → Bool
  | .done => false
  | a => a.emptyHanded

/-- The data of the messages that the sender is still to send. -/
def Sender.carried : Sender M → List (Option M)
  | .getClient msg => [some msg.message]
  | .getAllClients broadcast => [broadcast.map Broadcast.message]
  | a => a.jobs.map fun job => job.payload.data

/-- The sender has left its loop. -/
def Sender.ended : Sender M → Bool
  | .drain | .done => true
  | _ => false

theorem Sender.ne_done_of_between {a : Sender M} (h : a.between = true) : a ≠ .done := by
  rintro rfl
  cases h

theorem Sender.emptyHanded_of_between {a : Sender M} (h : a.between = true) :
    a.emptyHanded = true := by
  cases a <;> first | rfl | cases h

theorem Sender.carried_of_between {a : Sender M} (h : a.between = true) : a.carried = [] := by
  cases a <;> first | rfl | cases h

theorem Sender.ne_done_of_carrying {a : Sender M} (h : a.emptyHanded = false) : a ≠ .done := by
  rintro rfl
  cases h

theorem Sender.not_ended_of_carrying {a : Sender M} (h : a.emptyHanded = false) :
    a.ended = false := by
  cases a <;> first | rfl | cases h

/-- The buffers in the queue and in `message_to_everyone`. What the sender leaves there when it
returns has been released. -/
def Server.mailboxes (s : Server M) : List M :=
  match s.sender with
  | .done => []
  | _ => s.outgoingData ++ s.everyoneData.toList

instance (s : SentBuffers M) : (l : ServerLabel M) → Decidable (sentBeforeStop s l)
  | .sendTo _ | .sendToEveryone _ => inferInstanceAs (Decidable (_ = _))
  | .accept _ | .addClient _ | .closeSocket _ | .stopClient _ | .setStop | .stopReceivingThreads
  | .sender _ => .isTrue trivial

namespace SentBuffers

/-- The buffers owned by the server are those in the mailboxes and the one that the sender has
popped. -/
structure Ok (s : SentBuffers M) : Prop where
  accounts : Accounts s.heap (s.server.mailboxes ++ s.popped.toList)
  emptyHanded : s.server.sender.emptyHanded = true → s.popped = none
  carried : ∀ data ∈ s.server.sender.carried, data = s.popped
  ended : s.server.sender.ended = true → s.server.stopped = true

theorem ok_initial : (initial : SentBuffers M).Ok := ⟨.nil, fun _ => rfl, nofun, nofun⟩

variable {s : SentBuffers M} {t : Server M}

/-- A step of the listener, of a receiver or of a stop touches no buffer. -/
theorem Ok.keep (h : s.Ok) (htable : TableStep s.server t) : Ok { s with server := t } := by
  refine ⟨?_, htable.sender ▸ h.emptyHanded, htable.sender ▸ h.carried, fun hended => ?_⟩
  · have hmailboxes : t.mailboxes = s.server.mailboxes := by
      simp only [Server.mailboxes, Server.outgoingData, Server.everyoneData, htable.sender,
        htable.outgoing, htable.everyone]
    rw [hmailboxes]
    exact h.accounts
  · exact htable.stopped (h.ended (htable.sender ▸ hended))

theorem mailboxes_of_ne_done {a : Server M} (h : a.sender ≠ .done) :
    a.mailboxes = a.outgoingData ++ a.everyoneData.toList := by
  unfold Server.mailboxes
  split
  next hdone => exact absurd hdone h
  next => rfl

theorem ok_of_ne_done {popped : Option M} {heap : List (Event M)} (h : t.sender ≠ .done)
    (haccounts : Accounts heap (t.outgoingData ++ t.everyoneData.toList ++ popped.toList))
    (hemptyHanded : t.sender.emptyHanded = true → popped = none)
    (hcarried : ∀ data ∈ t.sender.carried, data = popped)
    (hended : t.sender.ended = true → t.stopped = true) : Ok ⟨t, popped, heap⟩ :=
  ⟨(mailboxes_of_ne_done h).symm ▸ haccounts, hemptyHanded, hcarried, hended⟩

theorem ok_of_carrying {popped : Option M} {heap : List (Event M)}
    (h : t.sender.emptyHanded = false)
    (haccounts : Accounts heap (t.outgoingData ++ t.everyoneData.toList ++ popped.toList))
    (hcarried : ∀ data ∈ t.sender.carried, data = popped) : Ok ⟨t, popped, heap⟩ := by
  refine ok_of_ne_done (Sender.ne_done_of_carrying h) haccounts (fun hempty => ?_) hcarried
    fun hended => ?_
  · rw [h] at hempty
    cases hempty
  · rw [Sender.not_ended_of_carrying h] at hended
    cases hended

theorem Ok.accounts_of_ne_done (h : s.Ok) (hne : s.server.sender ≠ .done) :
    Accounts s.heap (s.server.outgoingData ++ s.server.everyoneData.toList ++ s.popped.toList) :=
  mailboxes_of_ne_done hne ▸ h.accounts

/-- Before a stop the sender is in its loop. -/
theorem Ok.ne_done (h : s.Ok) (hbefore : s.server.stopped = false) : s.server.sender ≠ .done := by
  intro hdone
  have hstopped := h.ended (by rw [hdone]; rfl)
  rw [hbefore] at hstopped
  cases hstopped

/-! ## The calls of the host -/

theorem ok_sendTo {msg : IndividualMessage M} (h : s.Ok) (hbefore : s.server.stopped = false)
    (hfresh : msg.message ∉ acquired s.heap) (hstep : s.server.step (.sendTo msg) = some t) :
    Ok ⟨t, s.popped, s.heap ++ [.acquired msg.message]⟩ := by
  simp only [Server.step] at hstep
  split_ifs at hstep
  obtain rfl := Option.some.inj hstep
  have hne := h.ne_done hbefore
  refine ok_of_ne_done hne (((h.accounts_of_ne_done hne).acquire hfresh).perm ?_) h.emptyHanded
    h.carried h.ended
  simp only [Server.outgoingData, Server.everyoneData, queueSyncPushBack, List.map_append,
    List.map_cons, List.map_nil, List.append_assoc, List.cons_append, List.nil_append]
  exact List.perm_middle.symm

/-- The broadcast that has not been sent is released, and the new one is kept. -/
theorem ok_sendToEveryone {message : M} (h : s.Ok) (hbefore : s.server.stopped = false)
    (hfresh : message ∉ acquired s.heap)
    (hstep : s.server.step (.sendToEveryone message) = some t) :
    Ok ⟨t, s.popped,
      s.heap ++ [.acquired message] ++ s.server.everyoneData.toList.map .released⟩ := by
  simp only [Server.step] at hstep
  split_ifs at hstep
  obtain rfl := Option.some.inj hstep
  have hne := h.ne_done hbefore
  refine ok_of_ne_done hne ?_ h.emptyHanded h.carried h.ended
  refine (((h.accounts_of_ne_done hne).acquire hfresh).perm ?_).releaseAll
  have hold : (s.server.outgoingData ++ s.server.everyoneData.toList ++ s.popped.toList).Perm
      (s.server.everyoneData.toList ++ (s.server.outgoingData ++ s.popped.toList)) := by
    rw [← List.append_assoc]
    exact List.perm_append_comm.append_right _
  refine (hold.cons message).trans (List.perm_middle.symm.trans (.append_left _ ?_))
  exact (List.perm_append_singleton message _).symm.append_right _

/-! ## The sender -/

/-- The sender goes on with the message it has popped. -/
theorem Ok.carry (h : s.Ok) (hs : s.server.sender.emptyHanded = false)
    (hnext : t.sender.emptyHanded = false) (houtgoing : t.outgoing = s.server.outgoing)
    (heveryone : t.everyone = s.server.everyone)
    (hcarried : ∀ data ∈ t.sender.carried, data = s.popped) : Ok ⟨t, s.popped, s.heap ++ []⟩ := by
  refine ok_of_carrying hnext ?_ hcarried
  rw [List.append_nil, Server.outgoingData, Server.everyoneData, houtgoing, heveryone]
  exact h.accounts_of_ne_done (Sender.ne_done_of_carrying hs)

/-- The sender goes to `next` between two messages. -/
theorem Ok.between (h : s.Ok) (hs : s.server.sender.between = true) {next : Sender M}
    (hnext : next.between = true) (hended : next.ended = false ∨ s.server.stopped = true)
    {log : List (ServerEvent M)} :
    Ok ⟨{ s.server with sender := next, log }, s.popped, s.heap ++ []⟩ := by
  have haccounts := h.accounts_of_ne_done (Sender.ne_done_of_between hs)
  refine ok_of_ne_done (Sender.ne_done_of_between hnext) ?_
    (fun _ => h.emptyHanded (Sender.emptyHanded_of_between hs))
    (by simp [Sender.carried_of_between hnext]) fun hend => ?_
  · rw [List.append_nil]
    exact haccounts
  · rcases hended with hended | hstopped
    · rw [hended] at hend
      cases hend
    · exact hstopped

theorem send_mailboxes (s : Server M) (ok : Bool) (job : Job M) :
    (s.send ok job).outgoing = s.outgoing ∧ (s.send ok job).everyone = s.everyone := by
  unfold Server.send
  split
  · split_ifs <;> exact ⟨rfl, rfl⟩
  · exact ⟨rfl, rfl⟩

theorem ok_popIndividual (h : s.Ok) (hs : s.server.sender = .popIndividual)
    {msg : IndividualMessage M} {rest : List (IndividualMessage M)}
    (hqueue : s.server.outgoing = msg :: rest) (houtgoing : t.outgoing = rest)
    (heveryone : t.everyone = s.server.everyone) (hsender : t.sender = .getClient msg) :
    Ok ⟨t, some msg.message, s.heap⟩ := by
  have hnone : s.popped = none := h.emptyHanded (by rw [hs]; rfl)
  have haccounts := h.accounts_of_ne_done (Sender.ne_done_of_between (by rw [hs]; rfl))
  refine ok_of_carrying (by rw [hsender]; rfl) (haccounts.perm ?_)
    (by simp [hsender, Sender.carried])
  simp only [Server.outgoingData, Server.everyoneData, houtgoing, heveryone, hqueue, hnone,
    Option.toList_none, List.append_nil, List.map_cons, Option.toList_some]
  exact (List.perm_append_singleton msg.message _).symm

theorem ok_popEveryone (h : s.Ok) (hs : s.server.sender = .popEveryone)
    (houtgoing : t.outgoing = s.server.outgoing) (heveryone : t.everyone = none)
    (hsender : t.sender = .getAllClients s.server.everyone) :
    Ok ⟨t, s.server.everyoneData, s.heap⟩ := by
  have hnone : s.popped = none := h.emptyHanded (by rw [hs]; rfl)
  have haccounts := h.accounts_of_ne_done (Sender.ne_done_of_between (by rw [hs]; rfl))
  refine ok_of_carrying (by rw [hsender]; rfl) (haccounts.perm (.of_eq ?_))
    (by simp [hsender, Sender.carried, Server.everyoneData])
  simp [Server.outgoingData, Server.everyoneData, houtgoing, heveryone, hnone]

/-- After the calls of `sendMessageTo` the message is released. -/
theorem ok_freeOutgoingMessage (h : s.Ok) (hs : s.server.sender = .serve [])
    (houtgoing : t.outgoing = s.server.outgoing) (heveryone : t.everyone = s.server.everyone)
    (hsender : t.sender = .head) :
    Ok ⟨t, none, s.heap ++ s.popped.toList.map .released⟩ := by
  have haccounts := h.accounts_of_ne_done (Sender.ne_done_of_carrying (by rw [hs]; rfl))
  refine ok_of_ne_done (Sender.ne_done_of_between (by rw [hsender]; rfl)) ?_ (fun _ => rfl)
    (by simp [hsender, Sender.carried, Sender.jobs]) (by simp [hsender, Sender.ended])
  rw [Server.outgoingData, Server.everyoneData, houtgoing, heveryone, Option.toList_none,
    List.append_nil]
  exact (haccounts.perm List.perm_append_comm).releaseAll

/-- The second `send` reads the data that the sender has popped. -/
theorem ok_sendData (h : s.Ok) {job : Job M} {jobs : List (Job M)}
    (hs : s.server.sender = .sendData job jobs) (houtgoing : t.outgoing = s.server.outgoing)
    (heveryone : t.everyone = s.server.everyone) (hsender : t.sender = .serve jobs) :
    Ok ⟨t, s.popped, s.heap ++ job.payload.data.toList.map .used⟩ := by
  have haccounts := h.accounts_of_ne_done (Sender.ne_done_of_carrying (by rw [hs]; rfl))
  have hcarried : ∀ data ∈ (job :: jobs).map (fun job => job.payload.data), data = s.popped := by
    have hcarried := h.carried
    rw [hs] at hcarried
    exact hcarried
  rw [List.map_cons, List.forall_mem_cons] at hcarried
  refine ok_of_carrying (by rw [hsender]; rfl) ?_ (by rw [hsender]; exact hcarried.2)
  rw [hcarried.1, Server.outgoingData, Server.everyoneData, houtgoing, heveryone]
  exact haccounts.useAll fun b hb => List.mem_append_right _ hb

/-- After the loop everything that is left is released. -/
theorem ok_drain (h : s.Ok) (hs : s.server.sender = .drain)
    (hstopped : t.stopped = s.server.stopped) (hsender : t.sender = .done) :
    Ok ⟨t, s.popped,
      s.heap ++ (s.server.outgoingData ++ s.server.everyoneData.toList).map .released⟩ := by
  have hnone : s.popped = none := h.emptyHanded (by rw [hs]; rfl)
  have haccounts := h.accounts_of_ne_done (Sender.ne_done_of_between (by rw [hs]; rfl))
  refine ⟨?_, fun _ => hnone, by simp [hsender, Sender.carried, Sender.jobs], fun _ => ?_⟩
  · rw [show t.mailboxes = [] by simp [Server.mailboxes, hsender], hnone]
    rw [hnone] at haccounts
    exact haccounts.releaseAll
  · exact hstopped.trans (h.ended (by rw [hs]; rfl))

theorem ok_senderStep {ok : Bool} (h : s.Ok) (hstep : s.server.senderStep ok = some t) :
    Ok ⟨t, s.server.senderPopped s.popped, s.heap ++ s.server.senderHeap s.popped⟩ := by
  cases hs : s.server.sender <;>
    simp only [Server.senderStep, hs, reduceCtorEq, Option.some.injEq] at hstep <;>
    simp only [Server.senderPopped, Server.senderHeap, hs]
  -- the two calls of isStopped
  case head | woken =>
    subst hstep
    refine h.between (by rw [hs]; rfl) (by split_ifs <;> rfl) ?_
    split_ifs with hstopped
    · exact .inr hstopped
    · exact .inl rfl
  case waitQueue | waitSlot | checkQueue =>
    exact hstep ▸ h.between (by rw [hs]; rfl) (by split_ifs <;> rfl) (.inl (by split_ifs <;> rfl))
  case lockMessage | waiting | lockQueue =>
    subst hstep
    exact h.between (by rw [hs]; rfl) rfl (.inl rfl)
  case popIndividual =>
    obtain ⟨⟨msg, rest⟩, hpop, rfl⟩ := Option.map_eq_some_iff.mp hstep
    have hqueue := queueSyncPopFront_eq_some.mp hpop
    rw [List.append_nil, Server.outgoingData, hqueue]
    exact ok_popIndividual h hs hqueue rfl rfl rfl
  case getClient msg =>
    obtain ⟨client, -, rfl⟩ := Option.map_eq_some_iff.mp hstep
    refine h.carry (by rw [hs]; rfl) rfl rfl rfl ?_
    have hcarried := h.carried
    rw [hs] at hcarried
    simpa [Sender.carried, Sender.jobs, Payload.data] using hcarried
  case popEveryone =>
    subst hstep
    rw [List.append_nil]
    exact ok_popEveryone h hs rfl rfl rfl
  case getAllClients b =>
    subst hstep
    refine h.carry (by rw [hs]; rfl) rfl rfl rfl fun data hdata => ?_
    have hcarried := h.carried
    rw [hs] at hcarried
    obtain ⟨job, hjob, rfl⟩ := List.mem_map.mp hdata
    obtain ⟨⟨client, i⟩, -, rfl⟩ := List.mem_map.mp hjob
    exact hcarried _ (List.mem_singleton.mpr rfl)
  case serve jobs =>
    cases jobs with
    | nil => exact Option.some.inj hstep ▸ ok_freeOutgoingMessage h hs rfl rfl rfl
    | cons job jobs =>
      have hcarried := h.carried
      rw [hs] at hcarried
      simp only at hstep
      split_ifs at hstep
      · exact Option.some.inj hstep ▸ h.carry (by rw [hs]; rfl) rfl rfl rfl hcarried
      · exact Option.some.inj hstep ▸ h.carry (by rw [hs]; rfl) rfl rfl rfl fun data hdata =>
          hcarried data (List.mem_cons_of_mem _ hdata)
  case sendSize job jobs =>
    have hcarried := h.carried
    rw [hs] at hcarried
    have hsend := send_mailboxes s.server ok job
    exact hstep ▸ h.carry (by rw [hs]; rfl) rfl hsend.1 hsend.2 hcarried
  case sendData job jobs =>
    have hsend := send_mailboxes s.server ok job
    exact hstep ▸ ok_sendData h hs hsend.1 hsend.2 rfl
  case drain => exact hstep ▸ ok_drain h hs rfl rfl

/-! ## Runs -/

theorem ok_step [DecidableEq M] {s' : SentBuffers M} {l : ServerLabel M} (h : s.Ok)
    (hok : sentBeforeStop s l) (hstep : s.step l = some s') : s'.Ok := by
  cases l with
  | sendTo msg =>
    simp only [step] at hstep
    split_ifs at hstep with hfresh
    obtain ⟨t, ht, rfl⟩ := Option.map_eq_some_iff.mp hstep
    exact ok_sendTo h hok hfresh ht
  | sendToEveryone message =>
    simp only [step] at hstep
    split_ifs at hstep with hfresh
    obtain ⟨t, ht, rfl⟩ := Option.map_eq_some_iff.mp hstep
    exact ok_sendToEveryone h hok hfresh ht
  | sender ok =>
    obtain ⟨t, ht, rfl⟩ := Option.map_eq_some_iff.mp hstep
    exact ok_senderStep h ht
  | accept | addClient | closeSocket | stopClient | setStop | stopReceivingThreads =>
    unfold step at hstep
    obtain ⟨t, ht, rfl⟩ := Option.map_eq_some_iff.mp hstep
    exact h.keep (tableStep_of_step rfl ht)

/-- What is left of a run when the sender has returned. -/
theorem Ok.released (h : s.Ok) (hdone : s.server.sender = .done) :
    (released s.heap).Nodup ∧ (released s.heap).Perm (acquired s.heap) := by
  have haccounts := h.accounts
  rw [h.emptyHanded (by rw [hdone]; rfl),
    show s.server.mailboxes = [] by simp [Server.mailboxes, hdone]] at haccounts
  exact haccounts.settled

end SentBuffers

/-- **Buffers of messages sent.** Whatever the schedule, a buffer is read and released only while
the server holds it, and when the sender has returned, which `stopServer` waits for, every buffer
handed over has been released exactly once. -/
theorem releasedOnce_of_reach [DecidableEq M] (s : SentBuffers M)
    (hreach : Lts.Reach SentBuffers.step sentBeforeStop .initial s) :
    History.EachEvent InTime s.heap ∧
    (s.server.sender = .done →
      (released s.heap).Nodup ∧ (released s.heap).Perm (acquired s.heap)) := by
  have hok : s.Ok := hreach.invariant SentBuffers.ok_initial fun _ _ _ hI hl hstep =>
    SentBuffers.ok_step hI hl hstep
  exact ⟨hok.accounts.inTime, hok.released⟩

/-- Message 10 and broadcast 12 are sent, broadcast 11 is overwritten, and the server is stopped
before the sender gets to message 13 and broadcast 14. -/
def stoppedRun : List (ServerLabel ℕ) :=
  [.accept 5, .addClient true, .sendTo ⟨10, 0⟩, .sendToEveryone 11, .sendToEveryone 12]
    ++ List.replicate 23 (.sender true)
    ++ [.sendTo ⟨13, 0⟩, .sendToEveryone 14, .setStop, .sender true, .sender true]

theorem releasedOnce_of_reach_stopped :
    ∃ s, Lts.run SentBuffers.step stoppedRun .initial = some s ∧
      released s.heap = [11, 10, 12, 13, 14] ∧ (released s.heap).Perm (acquired s.heap) := by
  refine ⟨_, rfl, rfl, ?_⟩
  have hrun := (rfl : Lts.run SentBuffers.step stoppedRun .initial = some _)
  have halong : Lts.Along SentBuffers.step sentBeforeStop stoppedRun .initial := by decide
  exact ((releasedOnce_of_reach _ (.of_along hrun halong)).2 rfl).2

end PRShooter
