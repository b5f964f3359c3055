import PRShooter.Commands
import PRShooter.ReceivedBuffers

/-!
# From a client's keyboard to the game

All receivers beside the host's `take`, and the bytes that each client sends. What a receiver does
among the others is what it does alone (`Projected`), and the queue keeps the order of one client's
messages. So whatever the schedule, whatever call fails and wherever a connection is cut, the messages
of a client that `take` has returned are handled as the first of its commands (`commands_delivered`).
-/

namespace PRShooter

open Framing

/-! ## One client among the others -/

/-- The bytes each client sends, by its id. -/
def streamsOf (is : List ReceivedLabel) : List (List UInt8) :=
  is.filterMap fun
    | .addClient _ sent => some sent
    | _ => none

/-- The events about a client. -/
def eventsOf (c : ℕ) (events : List Pushed) : List IncomingMessage :=
  (events.filter fun msg => msg.event.clientId = c).map Pushed.event

/-- The payloads of the MESSAGEs. -/
def messagesOf (events : List IncomingMessage) : List Message :=
  (events.filter fun m => m.messageType = .message).map IncomingMessage.message

theorem streamsOf_append (is : List ReceivedLabel) (l : ReceivedLabel) :
    streamsOf (is ++ [l]) = streamsOf is ++ streamsOf [l] := List.filterMap_append

theorem eventsOf_append (c : ℕ) (events events' : List Pushed) :
    eventsOf c (events ++ events') = eventsOf c events ++ eventsOf c events' := by
  simp [eventsOf]

theorem messagesOf_mono {events events' : List IncomingMessage} (h : events <+: events') :
    messagesOf events <+: messagesOf events' := (h.filter _).map _

/-- The thread of a client has not been created, or is in a state it could reach alone. -/
def Alone (c : ℕ) (sent : List UInt8) (thread : ReceiverState) (events : List IncomingMessage) :
    Prop :=
  thread.call = .returned ∧ events = [] ∨
    Lts.Reach StartReceiving.step Lts.Any (.initial c sent) ⟨thread, events⟩

/-- Every receiver could have done alone what it has done. -/
structure Projected (s : ReceivedBuffers) (streams : List (List UInt8)) : Prop where
  length : s.threads.length = streams.length
  alone : ∀ c sent, streams[c]? = some sent →
    ∃ thread, s.threads[c]? = some thread ∧ Alone c sent thread (eventsOf c s.pushed)
  none : ∀ c, streams.length ≤ c → eventsOf c s.pushed = []

theorem projected_initial : Projected .initial [] := ⟨rfl, nofun, fun _ _ => rfl⟩

variable {s t : ReceivedBuffers} {streams : List (List UInt8)}

theorem Projected.keep (h : Projected s streams) (hthreads : t.threads = s.threads)
    (hpushed : t.pushed = s.pushed) : Projected t streams :=
  ⟨hthreads ▸ h.length, by rw [hthreads, hpushed]; exact h.alone, by rw [hpushed]; exact h.none⟩

/-- The events pushed after an effect. -/
theorem pushed_apply (s : ReceivedBuffers) (effect : ReceiverEffect) :
    (s.apply effect).threads = s.threads ∧
      ∃ new, (s.apply effect).pushed = s.pushed ++ new ∧ new.map Pushed.event = effect.events := by
  cases effect with
  | none | malloc | free => exact ⟨rfl, [], by simp [ReceivedBuffers.apply], rfl⟩
  | pushBack event data | pushFront event => exact ⟨rfl, _, rfl, rfl⟩

/-- A thread pushes events about its own client. -/
theorem clientId_of_step {r r' : ReceiverState} {l : ReceiverLabel} {effect : ReceiverEffect}
    (h : r.step l = some (r', effect)) : ∀ event ∈ effect.events, event.clientId = r.clientId := by
  cases ReceiverState.calls_of_step h with
  | recvData size buffer ok behind =>
    unfold ReceiverState.afterRecvData
    dsimp only
    split_ifs <;> exact fun _ hmem => absurd hmem List.not_mem_nil
  | connected | message | disconnected =>
    intro event hevent
    rw [List.mem_singleton.mp hevent]
    rfl
  | _ => exact fun _ hmem => absurd hmem List.not_mem_nil

theorem eventsOf_own {c : ℕ} {new : List Pushed}
    (h : ∀ event ∈ new.map Pushed.event, event.clientId = c) :
    eventsOf c new = new.map Pushed.event := by
  unfold eventsOf
  rw [List.filter_eq_self.mpr]
  intro msg hmsg
  simpa using h msg.event (List.mem_map_of_mem hmsg)

theorem eventsOf_other {c d : ℕ} {new : List Pushed} (hne : d ≠ c)
    (h : ∀ event ∈ new.map Pushed.event, event.clientId = c) : eventsOf d new = [] := by
  unfold eventsOf
  rw [List.filter_eq_nil_iff.mpr, List.map_nil]
  intro msg hmsg
  have hclient := h msg.event (List.mem_map_of_mem hmsg)
  simpa [hclient] using hne.symm

/-- A thread that can move knows its client. -/
theorem Alone.clientId {c : ℕ} {sent : List UInt8} {thread thread' : ReceiverState}
    {events : List IncomingMessage} {l : ReceiverLabel} {effect : ReceiverEffect}
    (h : Alone c sent thread events) (hstep : thread.step l = some (thread', effect)) :
    thread.clientId = c := by
  rcases h with ⟨hreturned, -⟩ | hreach
  · rw [ReceivedBuffers.step_of_returned hreturned] at hstep
    cases hstep
  · obtain ⟨ms, fs, hprogress⟩ := StartReceiving.progress_of_reach False (fun _ _ _ => nofun) nofun
      hreach
    exact hprogress.clientId

theorem Alone.step {c : ℕ} {sent : List UInt8} {thread thread' : ReceiverState}
    {events : List IncomingMessage} {l : ReceiverLabel} {effect : ReceiverEffect}
    (h : Alone c sent thread events) (hstep : thread.step l = some (thread', effect)) :
    Alone c sent thread' (events ++ effect.events) := by
  rcases h with ⟨hreturned, -⟩ | hreach
  · rw [ReceivedBuffers.step_of_returned hreturned] at hstep
    cases hstep
  · refine .inr (hreach.tail trivial (i := l) ?_)
    unfold StartReceiving.step
    rw [hstep]
    rfl

theorem projected_receiver {c : ℕ} {l : ReceiverLabel} (h : Projected s streams)
    (hstep : s.step (.receiver c l) = some t) : Projected t streams := by
  obtain ⟨⟨thread', effect⟩, hthread', hrest⟩ := Option.bind_eq_some_iff.mp hstep
  obtain ⟨thread, hthread, hmoved⟩ := Option.bind_eq_some_iff.mp hthread'
  simp only at hrest
  split_ifs at hrest
  obtain rfl := Option.some.inj hrest
  obtain ⟨hthreads, new, hpushed, hevents⟩ :=
    pushed_apply { s with threads := s.threads.set c thread' } effect
  have hlt : c < s.threads.length := (List.getElem?_eq_some_iff.mp hthread).1
  obtain ⟨sent, hsent⟩ : ∃ sent, streams[c]? = some sent :=
    ⟨_, List.getElem?_eq_getElem (h.length ▸ hlt)⟩
  obtain ⟨thread₀, hthread₀, halone⟩ := h.alone c sent hsent
  obtain rfl : thread = thread₀ := Option.some.inj (hthread.symm.trans hthread₀)
  have hown : ∀ event ∈ new.map Pushed.event, event.clientId = c := by
    rw [hevents, ← halone.clientId hmoved]
    exact clientId_of_step hmoved
  refine ⟨?_, fun d sent' hsent' => ?_, fun d hd => ?_⟩
  · rw [hthreads, List.length_set]
    exact h.length
  · rw [hthreads, hpushed, eventsOf_append]
    by_cases hd : d = c
    · subst hd
      obtain rfl : sent = sent' := Option.some.inj (hsent.symm.trans hsent')
      refine ⟨thread', List.getElem?_set_self hlt, ?_⟩
      rw [eventsOf_own hown, hevents]
      exact halone.step hmoved
    · obtain ⟨other, hother, hothers⟩ := h.alone d sent' hsent'
      refine ⟨other, (List.getElem?_set_ne (Ne.symm hd)).trans hother, ?_⟩
      rw [eventsOf_other hd hown, List.append_nil]
      exact hothers
  · rw [hpushed, eventsOf_append, h.none d hd, eventsOf_other _ hown, List.append_nil]
    rw [← h.length] at hd
    omega

theorem projected_addClient {created : Bool} {sent : List UInt8} (h : Projected s streams)
    (hstep : s.step (.addClient created sent) = some t) : Projected t (streams ++ [sent]) := by
  simp only [ReceivedBuffers.step] at hstep
  split_ifs at hstep
  obtain rfl := Option.some.inj hstep
  refine ⟨by simp [h.length], fun c sent' hsent' => ?_, fun c hc => h.none c ?_⟩
  · by_cases hc : c < streams.length
    · rw [List.getElem?_append_left hc] at hsent'
      obtain ⟨thread, hthread, halone⟩ := h.alone c sent' hsent'
      exact ⟨thread, (List.getElem?_append_left (h.length ▸ hc)).trans hthread, halone⟩
    · have hlt := (List.getElem?_eq_some_iff.mp hsent').1
      rw [List.length_append, List.length_singleton] at hlt
      obtain rfl : c = streams.length := by omega
      obtain rfl : sent = sent' := by simpa using hsent'
      refine ⟨.create s.threads.length created sent, by simp [h.length], ?_⟩
      rw [h.none _ le_rfl, h.length]
      cases created with
      | false => exact .inl ⟨rfl, rfl⟩
      | true => exact .inr .refl
  · rw [List.length_append, List.length_singleton] at hc
    omega

theorem projected_step {l : ReceivedLabel} (h : Projected s streams) (hstep : s.step l = some t) :
    Projected t (streams ++ streamsOf [l]) := by
  have htake : s.takeFront.threads = s.threads ∧ s.takeFront.pushed = s.pushed := by
    unfold ReceivedBuffers.takeFront
    split <;> exact ⟨rfl, rfl⟩
  cases l with
  | addClient created sent => exact projected_addClient h hstep
  | receiver c l => exact (List.append_nil streams).symm ▸ projected_receiver h hstep
  | take | wake =>
    refine (List.append_nil streams).symm ▸ h.keep ?_ ?_ <;>
    · simp only [ReceivedBuffers.step] at hstep
      split at hstep <;> cases hstep
      first | exact htake.1 | exact htake.2
  | timeout | wrap | stopServer =>
    refine (List.append_nil streams).symm ▸ h.keep ?_ ?_ <;>
    · simp only [ReceivedBuffers.step] at hstep
      split at hstep <;> cases hstep
      rfl
  | destroyWrapper i =>
    obtain ⟨wrapper, -, rfl⟩ := Option.map_eq_some_iff.mp hstep
    exact (List.append_nil streams).symm ▸ h.keep rfl rfl
  | dispose =>
    simp only [ReceivedBuffers.step] at hstep
    split_ifs at hstep
    obtain ⟨⟨msg, rest⟩, -, rfl⟩ := Option.map_eq_some_iff.mp hstep
    exact (List.append_nil streams).symm ▸ h.keep rfl rfl
  | joinListener | stopReceivingThreads | queueSyncDestroy =>
    simp only [ReceivedBuffers.step] at hstep
    split_ifs at hstep
    obtain rfl := Option.some.inj hstep
    exact (List.append_nil streams).symm ▸ h.keep rfl rfl

theorem projected_of_run {is : List ReceivedLabel}
    (h : Lts.run ReceivedBuffers.step is .initial = some s) : Projected s (streamsOf is) := by
  refine Lts.run_history (I := fun is s => Projected s (streamsOf is)) h projected_initial
    fun is u l v hI hstep => ?_
  rw [streamsOf_append]
  exact projected_step hI hstep

/-! ## What the host takes -/

/-- The messages of one client in its life are those it was pushed with. -/
theorem messagesOf_clientHistory (c : ℕ) (ms : List Message) :
    messagesOf (clientHistory c ms) = ms := by
  have hall : (ms.map (messageEvent c)).filter (fun m => m.messageType = .message)
      = ms.map (messageEvent c) := by
    refine List.filter_eq_self.mpr fun m hm => ?_
    obtain ⟨message, -, rfl⟩ := List.mem_map.mp hm
    rfl
  simp [messagesOf, clientHistory, newConnectionEvent, lostConnectionEvent, hall, messageEvent,
    Function.comp_def]

theorem messagesOf_ordinary (c : ℕ) (events : List Pushed) :
    messagesOf (eventsOf c events) = messagesOf ((ordinary c events).map Pushed.event) := by
  unfold messagesOf eventsOf ordinary
  congr 1
  rw [List.filter_map, List.filter_map, List.filter_filter, List.filter_filter]
  congr 1
  refine List.filter_congr fun msg _ => ?_
  by_cases htype : msg.event.messageType = .message <;> simp [htype]

/-- The messages of a client are taken in the order they were pushed. -/
theorem messages_returned (hreach : Lts.Reach ReceivedBuffers.step Lts.Any .initial s) (c : ℕ) :
    messagesOf (eventsOf c s.returned) <+: messagesOf (eventsOf c s.pushed) := by
  rw [messagesOf_ordinary, messagesOf_ordinary]
  exact messagesOf_mono (((ReceivedBuffers.ok_of_reach hreach).events.prefix_returned c).map _)

/-- What has been taken from a client are the first frames of what it sent. -/
theorem bytes_returned {is : List ReceivedLabel}
    (hrun : Lts.run ReceivedBuffers.step is .initial = some s) {c : ℕ} {sent : List UInt8}
    (hsent : (streamsOf is)[c]? = some sent) :
    (messagesOf (eventsOf c s.returned)).map Message.bytes <+: completeFrames sent := by
  refine ((messages_returned (.of_run hrun) c).map _).trans ?_
  obtain ⟨thread, -, halone⟩ := (projected_of_run hrun).alone c sent hsent
  rcases halone with ⟨-, hnil⟩ | hreach
  · rw [hnil]
    exact List.nil_prefix
  · obtain ⟨ms, hbytes, hpushed, -⟩ := StartReceiving.pushed_of_reach hreach
    have hmessages := messagesOf_mono hpushed
    rw [messagesOf_clientHistory] at hmessages
    exact (hmessages.map _).trans hbytes

section Commands

variable {D F : Type} [Zero D] [One D] [Zero F] [NatCast D] [IntCast D] [OfScientific D] [Add D]
  [Mul D] [LE D] [DecidableLE D] [Trig F D] [OfWord 64 D] [OfWord 32 F] [ToWord 64 D]

/-- **Commands in any interleaving.** A client sends commands, and the server receives the bytes up to
some point. Whatever the receivers, the host and `stopServer` do, and whatever fails, the messages of
the client that `take` has returned are handled as its first commands. -/
theorem commands_delivered {is : List ReceivedLabel}
    (hrun : Lts.run ReceivedBuffers.step is .initial = some s) (self : Client.Sender)
    (hconnected : self.connected = true) (cmds : List Client.Command)
    (hids : ∀ cmd ∈ cmds, cmd.IdFits) {sent received : List UInt8}
    (hsent : Client.sendCommands self cmds = some sent) (hcut : received <+: sent) {c : ℕ}
    (hstream : (streamsOf is)[c]? = some received) :
    ∃ handled, handled <+: cmds ∧
      List.Forall₂ (HandledAs D F c) (messagesOf (eventsOf c s.returned)) handled := by
  have hbytes := (bytes_returned hrun hstream).trans (completeFrames_mono hcut)
  rw [Client.sendCommands_eq hids hconnected] at hsent
  obtain rfl := Option.some.inj hsent
  have hfits : ∀ body ∈ cmds.map Client.Command.body, Fits body := by
    intro body hbody
    obtain ⟨cmd, -, rfl⟩ := List.mem_map.mp hbody
    exact cmd.length_body_lt.trans (by decide)
  rw [completeFrames_stream hfits] at hbytes
  obtain ⟨handled, hfirst, hhandled⟩ := List.prefix_map_iff.mp hbytes
  refine ⟨handled, hfirst, ?_⟩
  have hpairs : List.Forall₂ (· = ·) ((messagesOf (eventsOf c s.returned)).map Message.bytes)
      (handled.map Client.Command.body) := by
    rw [List.forall₂_eq_eq_eq, hhandled]
  rw [List.forall₂_map_left_iff, List.forall₂_map_right_iff, List.forall₂_iff_zip] at hpairs
  refine List.forall₂_iff_zip.mpr ⟨hpairs.1, fun hmem => ?_⟩
  exact handledAs_of_bytes (hpairs.2 hmem)
    (hids _ (hfirst.subset (List.of_mem_zip hmem).2)) c

end Commands

/-- Two clients; the first is cut off in its second command. -/
def cutOff : List ReceivedLabel :=
  let receive (c buffer : ℕ) : List ReceivedLabel :=
    [.receiver c (.status true), .receiver c (.poll .readable), .receiver c (.recvSize true),
      .receiver c (.malloc buffer), .receiver c (.recvData true fun _ => 0)]
  [.addClient true [1, 0, 0, 0, 10, 1, 0, 0], .addClient true [], .receiver 0 .pushed,
    .receiver 1 .pushed] ++ receive 0 40 ++ [.receiver 0 .pushed, .take, .wrap, .take, .wrap, .take]

theorem commands_delivered_cutOff : ∃ s handled,
    Lts.run ReceivedBuffers.step cutOff .initial = some s ∧
    (messagesOf (eventsOf 0 s.returned)).map Message.bytes = [[10]] ∧
    handled <+: [Client.Command.spawn, .shoot] ∧
    List.Forall₂ (HandledAs ℝ ℝ 0) (messagesOf (eventsOf 0 s.returned)) handled := by
  obtain ⟨s, hrun, hbytes⟩ : ∃ s, Lts.run ReceivedBuffers.step cutOff .initial = some s ∧
      (messagesOf (eventsOf 0 s.returned)).map Message.bytes = [[10]] := ⟨_, rfl, rfl⟩
  have hcut : [1, 0, 0, 0, 10, 1, 0, 0] <+: ([1, 0, 0, 0, 10, 1, 0, 0, 0, 11] : List UInt8) :=
    ⟨[0, 11], rfl⟩
  obtain ⟨handled, hfirst, hhandled⟩ := commands_delivered (D := ℝ) (F := ℝ) hrun
    ⟨true, 0, ⟨0, 0⟩, 0⟩ rfl [.spawn, .shoot] (by simp [Client.Command.IdFits]) (by rfl) hcut
    (c := 0) rfl
  exact ⟨s, handled, hrun, hbytes, hfirst, hhandled⟩

end PRShooter
