import PRShooter.SenderOrder

/-!
# The sender gets on

How many steps of its own the sender needs, whatever the other threads do in between. After a stop
it returns (`sender_stops`). Before it, no message of `outgoing_queue` starves: newer broadcasts do
not get ahead of it, since the queue is looked at first (`popped_within`). Both count the steps of
one turn of the loop of `startSending`, which are at most three for each record of the copied table
and a few more. A step that writes is the return of `send`: how long the call blocks on a client
that does not read is not counted, and that it returns is taken as given.
-/

namespace PRShooter

variable {M : Type}

/-- A step of the sender thread. -/
def ServerLabel.isSender : ServerLabel M → Bool
  | .sender _ => true
  | _ => false

/-- The host sends to clients that have been added. -/
def sentToKnown (s : Server M) : ServerLabel M → Prop
  | .sendTo msg => msg.clientId < s.clients.length
  | _ => True

instance (s : Server M) : (l : ServerLabel M) → Decidable (sentToKnown s l)
  | .sendTo _ => inferInstanceAs (Decidable (_ < _))
  | .sendToEveryone _ | .accept _ | .addClient _ | .closeSocket _ | .stopClient _ | .setStop
  | .stopReceivingThreads | .sender _ => .isTrue trivial

namespace Server

variable {s t : Server M} {l : ServerLabel M}

/-! ## The other threads -/

/-- The others do not move the sender, and pop nothing. -/
theorem sender_of_step (hl : l.isSender = false) (h : s.step l = some t) :
    t.sender = s.sender ∧ poppedIndividuals t.log = poppedIndividuals s.log := by
  cases l with
  | sender => cases hl
  | sendTo | sendToEveryone =>
    simp only [step] at h
    split_ifs at h
    obtain rfl := Option.some.inj h
    exact ⟨rfl, by simp [ServerEvent.poppedIndividual]⟩
  | accept | addClient | closeSocket | stopClient | setStop | stopReceivingThreads =>
    have htable := tableStep_of_step rfl h
    exact ⟨htable.sender, by rw [htable.log]⟩

theorem send_stopped (s : Server M) (ok : Bool) (job : Job M) :
    (s.send ok job).stopped = s.stopped := by
  unfold send
  split
  · split_ifs <;> rfl
  · rfl

/-- A stop is for ever. -/
theorem stopped_of_step (h : s.step l = some t) (hstopped : s.stopped = true) :
    t.stopped = true := by
  cases l with
  | sendTo | sendToEveryone =>
    simp only [step] at h
    split_ifs at h
    exact Option.some.inj h ▸ hstopped
  | sender ok =>
    rw [← hstopped]
    cases hs : s.sender <;> simp only [step, senderStep, hs, reduceCtorEq] at h
    case popIndividual | getClient =>
      obtain ⟨_, -, rfl⟩ := Option.map_eq_some_iff.mp h
      rfl
    case serve jobs =>
      cases jobs with
      | nil => exact Option.some.inj h ▸ rfl
      | cons job jobs =>
        simp only at h
        split_ifs at h <;> exact Option.some.inj h ▸ rfl
    case sendSize job jobs | sendData job jobs =>
      exact Option.some.inj h ▸ send_stopped s ok job
    all_goals exact Option.some.inj h ▸ rfl
  | accept | addClient | closeSocket | stopClient | setStop | stopReceivingThreads =>
    exact (tableStep_of_step rfl h).stopped hstopped

theorem length_clients_of_aged {clients clients' : List ClientRecord} (h : Aged clients clients') :
    clients.length ≤ clients'.length := by
  by_contra hlt
  obtain ⟨client', hclient', -⟩ := h clients'.length clients[clients'.length]
    (List.getElem?_eq_getElem (by omega))
  exact absurd (List.getElem?_eq_some_iff.mp hclient').1 (lt_irrefl _)

/-- No client leaves the table. -/
theorem length_clients_of_step (h : s.step l = some t) : s.clients.length ≤ t.clients.length := by
  cases move_of_step h with
  | table haged | send _ _ _ haged => exact length_clients_of_aged haged
  | _ => exact le_rfl

/-! ## The copied table -/

/-- There is at most one job for each client. -/
def JobsOk (s : Server M) : Prop := s.sender.remaining.length ≤ s.clients.length

theorem jobsOk_step (h : s.JobsOk) (hstep : s.step l = some t) : t.JobsOk := by
  have hlength := length_clients_of_step hstep
  unfold JobsOk at h ⊢
  cases move_of_step hstep with
  | sendTo | sendToEveryone => exact h
  | table _ _ _ _ _ hsender =>
    rw [hsender]
    omega
  | control next _ hnext =>
    show next.remaining.length ≤ _
    rw [Sender.remaining_of_idle hnext]
    exact Nat.zero_le _
  | found =>
    show (if _ then _ else _ : Sender M).remaining.length ≤ _
    split_ifs <;> exact Nat.zero_le _
  | getClient msg client hs hclient =>
    have hlt := (List.getElem?_eq_some_iff.mp hclient).1
    exact Nat.one_le_of_lt hlt
  | getAllClients b hs => simp [Sender.remaining, broadcastJobs]
  | attempt job jobs hs | skip job jobs hs =>
    rw [hs] at h
    exact (Nat.le_succ _).trans h
  | send job jobs hs =>
    rw [hs.remaining.1] at h
    rw [hs.remaining.2]
    omega
  | lockQueue | popIndividual | popEveryone | drain => exact Nat.zero_le _

/-! ## After a stop -/

/-- How many steps the sender is away from its return at most, if it has been stopped and there are
`n` clients. -/
def rankStopped (n : ℕ) : Sender M → ℕ
  | .done => 0
  | .drain => 1
  | .head | .woken => 2
  | .waiting => 3
  | .serve jobs => 3 * jobs.length + 3
  | .sendData _ jobs => 3 * jobs.length + 4
  | .sendSize _ jobs => 3 * jobs.length + 5
  | .getClient _ => 7
  | .popIndividual => 8
  | .getAllClients _ => 3 * n + 4
  | .popEveryone => 3 * n + 5
  | .checkQueue => 3 * n + 9
  | .lockQueue => 3 * n + 10
  | .waitSlot => 3 * n + 11
  | .waitQueue => 3 * n + 12
  | .lockMessage => 3 * n + 13

theorem rankStopped_le {n : ℕ} (h : s.JobsOk) (hn : s.clients.length ≤ n) :
    rankStopped n s.sender ≤ 3 * n + 13 := by
  unfold JobsOk at h
  cases hs : s.sender <;> rw [hs] at h <;> simp only [Sender.remaining] at h <;>
    simp only [rankStopped] <;> omega

theorem rankStopped_step {n : ℕ} {ok : Bool} (hstopped : s.stopped = true)
    (hn : s.clients.length ≤ n) (h : s.senderStep ok = some t) :
    rankStopped n t.sender + 1 ≤ rankStopped n s.sender := by
  cases hs : s.sender <;> simp only [senderStep, hs, reduceCtorEq] at h
  case popIndividual | getClient =>
    obtain ⟨_, -, rfl⟩ := Option.map_eq_some_iff.mp h
    simp [rankStopped]
  case serve jobs =>
    cases jobs with
    | nil =>
      obtain rfl := Option.some.inj h
      simp [rankStopped]
    | cons job jobs =>
      simp only at h
      split_ifs at h <;> obtain rfl := Option.some.inj h <;>
        simp only [rankStopped, List.length_cons] <;> omega
  case getAllClients b =>
    obtain rfl := Option.some.inj h
    simp only [rankStopped, broadcastJobs, List.length_map, List.length_zipIdx]
    omega
  case head | woken =>
    obtain rfl := Option.some.inj h
    simp [hstopped, rankStopped]
  case waitQueue | waitSlot | checkQueue =>
    obtain rfl := Option.some.inj h
    simp only
    split_ifs <;> simp only [rankStopped] <;> omega
  all_goals
    obtain rfl := Option.some.inj h
    simp only [rankStopped]
    omega

/-! ## The sender is never stuck -/

/-- The queue and the sender hold messages to clients of the table. -/
structure KnownOk (s : Server M) : Prop where
  outgoing : ∀ msg ∈ s.outgoing, msg.clientId < s.clients.length
  popped : ∀ msg, s.sender = .getClient msg → msg.clientId < s.clients.length

/-- Only `sendTo` puts a message into the queue. -/
theorem mem_outgoing_of_step {msg : IndividualMessage M} (hstep : s.step l = some t)
    (hmsg : msg ∈ t.outgoing) : msg ∈ s.outgoing ∨ l = .sendTo msg := by
  cases l with
  | sendTo new =>
    simp only [step] at hstep
    split_ifs at hstep
    obtain rfl := Option.some.inj hstep
    rcases List.mem_append.mp hmsg with hold | hnew
    · exact .inl hold
    · exact .inr (by rw [List.mem_singleton.mp hnew])
  | sendToEveryone =>
    simp only [step] at hstep
    split_ifs at hstep
    obtain rfl := Option.some.inj hstep
    exact .inl hmsg
  | sender ok =>
    refine .inl ?_
    cases hs : s.sender <;> simp only [step, senderStep, hs, reduceCtorEq] at hstep
    case popIndividual =>
      obtain ⟨⟨first, rest⟩, hpop, rfl⟩ := Option.map_eq_some_iff.mp hstep
      rw [queueSyncPopFront_eq_some.mp hpop]
      exact List.mem_cons_of_mem first hmsg
    case getClient =>
      obtain ⟨client, -, rfl⟩ := Option.map_eq_some_iff.mp hstep
      exact hmsg
    case serve jobs =>
      cases jobs with
      | nil =>
        obtain rfl := Option.some.inj hstep
        exact hmsg
      | cons job jobs =>
        simp only at hstep
        split_ifs at hstep
        all_goals
          obtain rfl := Option.some.inj hstep
          exact hmsg
    case sendSize job jobs | sendData job jobs =>
      obtain rfl := Option.some.inj hstep
      have hqueue : (s.send ok job).outgoing = s.outgoing := by
        unfold send
        split
        · split_ifs <;> rfl
        · rfl
      exact hqueue ▸ hmsg
    case drain =>
      obtain rfl := Option.some.inj hstep
      cases hmsg
    all_goals
      obtain rfl := Option.some.inj hstep
      exact hmsg
  | accept | addClient | closeSocket | stopClient | setStop | stopReceivingThreads =>
    exact .inl ((tableStep_of_step rfl hstep).outgoing ▸ hmsg)

theorem knownOk_step (h : s.KnownOk) (hok : sentToKnown s l) (hstep : s.step l = some t) :
    t.KnownOk := by
  have hlength := length_clients_of_step hstep
  refine ⟨fun msg hmsg => ?_, fun msg hmsg => ?_⟩
  · rcases mem_outgoing_of_step hstep hmsg with hold | rfl
    · exact (h.outgoing msg hold).trans_le hlength
    · exact lt_of_lt_of_le hok hlength
  · cases move_of_step hstep with
    | sendTo | sendToEveryone => exact h.popped msg hmsg
    | table _ _ _ _ _ hsender => exact (h.popped msg (hsender ▸ hmsg)).trans_le hlength
    | popIndividual first rest hs hqueue =>
      obtain rfl := Sender.getClient.inj hmsg
      exact h.outgoing first (by rw [hqueue]; exact List.mem_cons_self)
    | send job jobs hs =>
      rw [hmsg] at hs
      generalize s.sender = a at hs
      cases hs
    | control next _ hnext =>
      rw [show next = .getClient msg from hmsg] at hnext
      cases hnext
    | found =>
      simp only at hmsg
      split_ifs at hmsg
    | lockQueue | getClient | popEveryone | getAllClients | attempt | skip | drain => cases hmsg

theorem isSome_senderStep (hfound : s.FoundOk) (hknown : s.KnownOk) (hs : s.sender ≠ .done)
    (ok : Bool) : (s.senderStep ok).isSome = true := by
  cases hsender : s.sender
  case done => exact absurd hsender hs
  case popIndividual =>
    unfold FoundOk at hfound
    rw [hsender] at hfound
    obtain ⟨msg, rest, hqueue⟩ := List.exists_cons_of_ne_nil hfound
    simp [senderStep, hsender, hqueue, queueSyncPopFront]
  case getClient msg =>
    have hlt := hknown.popped msg hsender
    simp [senderStep, hsender, List.getElem?_eq_getElem hlt]
  case serve jobs =>
    cases jobs with
    | nil => simp [senderStep, hsender]
    | cons job jobs =>
      simp only [senderStep, hsender]
      split_ifs <;> rfl
  all_goals simp [senderStep, hsender]

/-! ## Before a stop -/

/-- The sender has left its loop only if it was told to stop. -/
def EndedOk (s : Server M) : Prop :=
  s.stopped = false → s.sender ≠ .drain ∧ s.sender ≠ .done

theorem endedOk_step (h : s.EndedOk) (hstep : s.step l = some t) : t.EndedOk := by
  intro hrunning
  have hbefore : s.stopped = false := by
    refine Bool.eq_false_iff.mpr fun hstopped => ?_
    rw [stopped_of_step hstep hstopped] at hrunning
    cases hrunning
  obtain ⟨hdrain, hdone⟩ := h hbefore
  cases l with
  | sender ok =>
    cases hs : s.sender <;> simp only [step, senderStep, hs, reduceCtorEq] at hstep
    case drain => exact absurd hs hdrain
    case popIndividual | getClient =>
      obtain ⟨_, -, rfl⟩ := Option.map_eq_some_iff.mp hstep
      simp
    case serve jobs =>
      cases jobs with
      | nil =>
        obtain rfl := Option.some.inj hstep
        simp
      | cons job jobs =>
        simp only at hstep
        split_ifs at hstep <;> obtain rfl := Option.some.inj hstep <;> simp
    case head | woken =>
      obtain rfl := Option.some.inj hstep
      simp [hbefore]
    case waitQueue | waitSlot | checkQueue =>
      obtain rfl := Option.some.inj hstep
      simp only
      split_ifs <;> simp
    all_goals
      obtain rfl := Option.some.inj hstep
      simp
  | _ =>
    rw [(sender_of_step rfl hstep).1]
    exact ⟨hdrain, hdone⟩

/-- How many steps the sender makes at most until it has popped from a queue that is not empty, if it
is not stopped and there are `n` clients. -/
def rankPop (n : ℕ) : Sender M → ℕ
  | .done | .drain => 0
  | .popIndividual => 1
  | .checkQueue => 2
  | .lockQueue => 3
  | .waitQueue => 4
  | .lockMessage | .woken => 5
  | .head | .waiting => 6
  | .waitSlot => 7
  | .serve jobs => 3 * jobs.length + 7
  | .sendData _ jobs => 3 * jobs.length + 8
  | .sendSize _ jobs => 3 * jobs.length + 9
  | .getClient _ => 11
  | .getAllClients _ => 3 * n + 8
  | .popEveryone => 3 * n + 9

theorem rankPop_le {n : ℕ} (h : s.JobsOk) (hn : s.clients.length ≤ n) :
    rankPop n s.sender ≤ 3 * n + 11 := by
  unfold JobsOk at h
  cases hs : s.sender <;> rw [hs] at h <;> simp only [Sender.remaining] at h <;>
    simp only [rankPop] <;> omega

/-- What the sender does with a queue that is not empty: it gets nearer to the pop, or pops. -/
theorem rankPop_step {n : ℕ} {ok : Bool} (hqueue : s.outgoing ≠ []) (hrunning : t.stopped = false)
    (hloop : s.sender ≠ .drain) (hn : s.clients.length ≤ n) (h : s.senderStep ok = some t) :
    poppedIndividuals t.log = poppedIndividuals s.log ∧
        rankPop n t.sender + 1 ≤ rankPop n s.sender ∨
      (poppedIndividuals t.log).length = (poppedIndividuals s.log).length + 1 ∧
        rankPop n t.sender = 11 ∧ rankPop n s.sender = 1 := by
  have hempty : queueSyncIsEmpty s.outgoing = false := by simpa [queueSyncIsEmpty] using hqueue
  cases hs : s.sender <;> simp only [senderStep, hs, reduceCtorEq] at h
  case popIndividual =>
    obtain ⟨⟨msg, rest⟩, -, rfl⟩ := Option.map_eq_some_iff.mp h
    exact .inr ⟨by simp [ServerEvent.poppedIndividual], rfl, rfl⟩
  case getClient =>
    obtain ⟨client, -, rfl⟩ := Option.map_eq_some_iff.mp h
    exact .inl ⟨rfl, by simp [rankPop]⟩
  case serve jobs =>
    cases jobs with
    | nil =>
      obtain rfl := Option.some.inj h
      exact .inl ⟨rfl, by simp [rankPop]⟩
    | cons job jobs =>
      simp only at h
      split_ifs at h <;> obtain rfl := Option.some.inj h <;>
        refine .inl ⟨by simp [ServerEvent.poppedIndividual], ?_⟩ <;>
        simp only [rankPop, List.length_cons] <;> omega
  case sendSize job jobs | sendData job jobs =>
    obtain rfl := Option.some.inj h
    refine .inl ⟨?_, by simp only [rankPop]; omega⟩
    unfold send
    split
    · split_ifs <;> simp [ServerEvent.poppedIndividual, signalClientToStop, setStatus]
    · rfl
  case getAllClients b =>
    obtain rfl := Option.some.inj h
    refine .inl ⟨rfl, ?_⟩
    simp only [rankPop, broadcastJobs, List.length_map, List.length_zipIdx]
    omega
  case head | woken =>
    obtain rfl := Option.some.inj h
    have hgoes : s.stopped = false := hrunning
    exact .inl ⟨rfl, by simp [hgoes, rankPop]⟩
  case waitQueue | checkQueue =>
    obtain rfl := Option.some.inj h
    exact .inl ⟨by simp [ServerEvent.poppedIndividual], by simp [hempty, rankPop]⟩
  case waitSlot =>
    obtain rfl := Option.some.inj h
    refine .inl ⟨rfl, ?_⟩
    simp only
    split_ifs <;> simp [rankPop]
  case drain => exact absurd hs hloop
  all_goals
    obtain rfl := Option.some.inj h
    exact .inl ⟨by simp [ServerEvent.poppedIndividual], by simp [rankPop]⟩

/-! ## Runs -/

theorem jobsOk_of_reach {ok : Server M → ServerLabel M → Prop}
    (h : Lts.Reach step ok initial s) : s.JobsOk :=
  h.invariant (Nat.zero_le _) fun _ _ _ hinv _ hstep => jobsOk_step hinv hstep

theorem endedOk_of_reach (h : Lts.Reach step Lts.Any initial s) : s.EndedOk :=
  h.invariant (fun _ => ⟨nofun, nofun⟩) fun _ _ _ hinv _ hstep => endedOk_step hinv hstep

theorem log_of_run {is : List (ServerLabel M)} (h : Lts.run step is s = some t) :
    s.log <+: t.log :=
  Lts.run_invariant (I := fun u => s.log <+: u.log) h List.prefix_rfl
    fun _ _ _ _ hlog hstep => hlog.trans (move_of_step hstep).log_mono

/-- The messages before one that waits, and the way to the next pop. The message is the last of the
first `total` ones. -/
def rankMessage (n total : ℕ) (s : Server M) : ℕ :=
  11 * (total - (poppedIndividuals s.log).length - 1) + rankPop n s.sender

/-- The first `total` messages have not all been popped, and there are at most `n` clients. -/
structure Waiting (n total : ℕ) (s : Server M) : Prop where
  running : s.stopped = false
  clients : s.clients.length ≤ n
  popped : (poppedIndividuals s.log).length < total

theorem waiting_of_step {n total : ℕ} (hstep : s.step l = some t) (h : t.Waiting n total) :
    s.Waiting n total := by
  have hpopped := (poppedIndividuals_mono (move_of_step hstep).log_mono).length_le
  refine ⟨Bool.eq_false_iff.mpr fun hstopped => ?_,
    (length_clients_of_step hstep).trans h.clients, hpopped.trans_lt h.popped⟩
  have hlater := stopped_of_step hstep hstopped
  rw [h.running] at hlater
  cases hlater

/-- What is known of a server which the first `total` messages have been given to. -/
structure Given (total : ℕ) (s : Server M) : Prop where
  queue : s.QueueOk
  found : s.FoundOk
  ended : s.EndedOk
  calls : total ≤ (sendToCalls s.log).length

theorem given_step {total : ℕ} (h : s.Given total) (hstep : s.step l = some t) :
    t.Given total where
  queue := queueOk_move h.queue (move_of_step hstep)
  found := foundOk_move h.found (move_of_step hstep)
  ended := endedOk_step h.ended hstep
  calls := h.calls.trans (sendToCalls_mono (move_of_step hstep).log_mono).length_le

theorem rankMessage_step {n total : ℕ} (h : s.Given total) (ht : t.Waiting n total)
    (hstep : s.step l = some t) :
    rankMessage n total t + (if l.isSender then 1 else 0) ≤ rankMessage n total s := by
  have hs := waiting_of_step hstep ht
  obtain ⟨hdrain, hdone⟩ := h.ended hs.running
  cases l with
  | sender ok =>
    have hqueue : s.outgoing ≠ [] := by
      intro hempty
      have hcalls := h.calls
      rw [h.queue.calls hdone, hempty, List.append_nil] at hcalls
      exact absurd hs.popped (by omega)
    have hpopped := ht.popped
    simp only [rankMessage, ServerLabel.isSender, if_true]
    rcases rankPop_step hqueue ht.running hdrain hs.clients hstep with
      ⟨hsame, hrank⟩ | ⟨hone, hnext, hlast⟩
    · rw [hsame]
      omega
    · rw [hone] at hpopped ⊢
      omega
  | _ =>
    have hkept := sender_of_step rfl hstep
    simp [rankMessage, hkept.1, hkept.2, ServerLabel.isSender]

end Server

open Server

/-- **No starvation.** As long as the server is not stopped, a message of `outgoing_queue` with `k`
messages before it is popped within `11 k + 3 n + 12` steps of the sender, if there are `n` clients in
the end; whatever is sent in between. -/
theorem popped_within {s t : Server M} (hreach : Lts.Reach step Lts.Any .initial s)
    {before after : List (IndividualMessage M)} {msg : IndividualMessage M}
    (hqueue : s.outgoing = before ++ msg :: after) {is : List (ServerLabel M)}
    (hrun : Lts.run step is s = some t) (hrunning : t.stopped = false)
    (hcount : 11 * before.length + 3 * t.clients.length + 12 ≤ is.countP ServerLabel.isSender) :
    poppedIndividuals s.log ++ before ++ [msg] <+: poppedIndividuals t.log := by
  have hinv := senderInv_of_reach hreach
  have hended := endedOk_of_reach hreach
  have hbefore : s.stopped = false := by
    refine Bool.eq_false_iff.mpr fun hstopped => ?_
    have hlater := Lts.run_invariant (I := fun u => u.stopped = true) hrun hstopped
      fun _ _ _ _ hu hstep => stopped_of_step hstep hu
    rw [hrunning] at hlater
    cases hlater
  have hcalls := hinv.queue.calls (hended hbefore).2
  rw [hqueue] at hcalls
  have hgiven : poppedIndividuals s.log ++ before ++ [msg] <+: sendToCalls s.log :=
    ⟨after, by rw [hcalls]; simp⟩
  have hlater := (senderInv_of_reach (hreach.trans (.of_run hrun))).queue.popped
  have hlength : (poppedIndividuals s.log ++ before ++ [msg]).length
      = (poppedIndividuals s.log).length + before.length + 1 := by
    simp only [List.length_append, List.length_singleton]
  refine List.prefix_of_prefix_length_le (hgiven.trans (sendToCalls_mono (log_of_run hrun))) hlater ?_
  by_contra hlt
  have hvariant := Lts.countP_add_rank_le ServerLabel.isSender
    (rankMessage t.clients.length (poppedIndividuals s.log ++ before ++ [msg]).length)
    (fun _ _ _ _ => given_step) (fun _ _ _ => waiting_of_step) (fun _ _ _ _ => rankMessage_step) hrun
    ⟨hinv.queue, hinv.found, hended, hgiven.length_le⟩ ⟨hrunning, le_rfl, not_le.mp hlt⟩
  have hclients : s.clients.length ≤ t.clients.length :=
    Lts.run_invariant (I := fun u => s.clients.length ≤ u.clients.length) hrun le_rfl
      fun _ _ _ _ hu hstep => hu.trans (length_clients_of_step hstep)
  have hpop := rankPop_le (jobsOk_of_reach hreach) hclients
  simp only [rankMessage, hlength] at hvariant
  omega

/-- **The sender stops.** Once the server is stopped the sender makes at most `3 n + 13` steps more, if
there are `n` clients in the end, and until it has returned no lock or queue keeps it from its next
one: if every `send` returns, so does the sender. -/
theorem sender_stops {s t : Server M} (hreach : Lts.Reach step sentToKnown .initial s)
    (hstopped : s.stopped = true) {is : List (ServerLabel M)} (hrun : Lts.run step is s = some t)
    (hknown : Lts.Along step sentToKnown is s) :
    is.countP ServerLabel.isSender ≤ 3 * t.clients.length + 13 ∧
      (t.sender ≠ .done → ∀ ok, (t.step (.sender ok)).isSome = true) := by
  have hclients : s.clients.length ≤ t.clients.length :=
    Lts.run_invariant (I := fun u => s.clients.length ≤ u.clients.length) hrun le_rfl
      fun _ _ _ _ hu hstep => hu.trans (length_clients_of_step hstep)
  have hreach' := hreach.trans (.of_along hrun hknown)
  refine ⟨?_, fun hne ok => ?_⟩
  · have hvariant := Lts.countP_add_rank_le (I := fun u => u.stopped = true)
      (P := fun u => u.clients.length ≤ t.clients.length) ServerLabel.isSender
      (fun u => rankStopped t.clients.length u.sender)
      (fun _ _ _ _ hu hstep => stopped_of_step hstep hu)
      (fun _ _ _ hstep => (length_clients_of_step hstep).trans) ?_ hrun hstopped le_rfl
    · have hrank := rankStopped_le (jobsOk_of_reach hreach) hclients
      omega
    · rintro u l - v hu hv hstep
      cases l with
      | sender ok => exact rankStopped_step hu ((length_clients_of_step hstep).trans hv) hstep
      | _ =>
        rw [(sender_of_step rfl hstep).1]
        exact le_rfl
  · have hfound : t.FoundOk := hreach'.invariant (I := FoundOk) trivial
      fun _ _ _ hu _ hstep => foundOk_move hu (move_of_step hstep)
    have hids : t.KnownOk := hreach'.invariant (I := KnownOk) ⟨nofun, nofun⟩
      fun _ _ _ hu hok hstep => knownOk_step hu hok hstep
    exact isSome_senderStep hfound hids hne ok

/-- Two clients are sent a broadcast, and the sender is at the first of them when it is stopped. -/
def stoppedInBroadcast : List (ServerLabel ℕ) :=
  [.accept 5, .addClient true, .accept 6, .addClient true, .sendToEveryone 10]
    ++ List.replicate 9 (.sender true) ++ [.setStop]

/-- The state after it. -/
def servingTwo : Server ℕ := (Lts.run step stoppedInBroadcast .initial).getD .initial

/-- The first client is served while a message for the second comes in. -/
def nextMessage : List (ServerLabel ℕ) := [.sendTo ⟨11, 1⟩, .sender true, .sender true, .sender true]

theorem sender_stops_servingTwo : ∃ t, Lts.run step nextMessage servingTwo = some t ∧
    3 ≤ 3 * t.clients.length + 13 ∧ (t.step (.sender true)).isSome = true := by
  have hreach : Lts.Reach step sentToKnown .initial servingTwo :=
    .of_along (rfl : Lts.run step stoppedInBroadcast .initial = some servingTwo) (by decide)
  obtain ⟨t, hrun, hsender⟩ : ∃ t, Lts.run step nextMessage servingTwo = some t ∧
      t.sender ≠ .done := ⟨_, rfl, nofun⟩
  obtain ⟨hcount, hnext⟩ := sender_stops hreach rfl hrun (by decide)
  exact ⟨t, hrun, hcount, hnext hsender true⟩

/-- The sender is in the broadcast to two clients when message 11 comes in; then it makes steps. -/
def queuedInBroadcast : List (ServerLabel ℕ) :=
  [.accept 5, .addClient true, .accept 6, .addClient true, .sendToEveryone 10]
    ++ List.replicate 9 (.sender true) ++ [.sendTo ⟨11, 1⟩]

theorem popped_within_broadcast : ∃ s t, Lts.run step queuedInBroadcast .initial = some s ∧
    Lts.run step (List.replicate 18 (.sender true)) s = some t ∧
    [⟨11, 1⟩] <+: poppedIndividuals t.log :=
  ⟨_, _, rfl, rfl, popped_within
    (.of_run (rfl : Lts.run step queuedInBroadcast .initial = some _))
    (rfl : _ = [] ++ (⟨11, 1⟩ : IndividualMessage ℕ) :: [])
    (rfl : Lts.run step (List.replicate 18 (.sender true)) _ = some _) rfl (by decide)⟩

end PRShooter
