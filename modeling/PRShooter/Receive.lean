import PRShooter.HandleMessage
import PRShooter.ServerQueue
import PRShooter.Lts

/-!
# The received messages

`startReceiving` and `take` of `Server/server_receive.c`: any number of receiver threads push on
`received_messages`, the host takes from it. A step is one critical section of the queue, or a
thread reading its socket. NEW_CONNECTION and MESSAGE are pushed at the back, LOST_CONNECTION at
the front: it overtakes the events of its client that have not been taken (`overtakesNothing`).
-/

namespace PRShooter

/-! ## The threads -/

/-- Where the receiver thread of a client is. -/
inductive Receiver where
  | notStarted
  | polling
  /-- A whole frame has been read and not been pushed. -/
  | holding (message : Message)
  | closed

/-- The queue, the receiver threads and the host's `take`. `received` and `returned` record what
each receiver has read from its socket and what `take` has returned. -/
structure Inbox where
  queue : SynchronizedQueue IncomingMessage
  receiver : ℕ → Receiver
  /-- The host is inside `take` and has found the queue empty. -/
  waiting : Bool
  received : ℕ → List Message
  returned : List IncomingMessage

/-- A step of a receiver thread or of the host. -/
inductive InboxLabel where
  | start (clientId : ℕ)
  | recv (clientId : ℕ) (message : Message)
  | push (clientId : ℕ)
  | disconnect (clientId : ℕ)
  | take
  | wake
  | timeout

/-- The events a receiver pushes. -/
def newConnectionEvent (clientId : ℕ) : IncomingMessage :=
  ⟨.newConnection, clientId, Message.ofBytes []⟩
def messageEvent (clientId : ℕ) (message : Message) : IncomingMessage :=
  ⟨.message, clientId, message⟩
def lostConnectionEvent (clientId : ℕ) : IncomingMessage :=
  ⟨.lostConnection, clientId, Message.ofBytes []⟩

/-- What `take` returns when it has timed out. -/
def emptyEvent : IncomingMessage := ⟨.empty, 0, Message.ofBytes []⟩

namespace Inbox

def initial : Inbox := ⟨[], fun _ => .notStarted, false, fun _ => [], []⟩

def setReceiver (s : Inbox) (c : ℕ) (r : Receiver) : Inbox :=
  { s with receiver := Function.update s.receiver c r }

/-- The body of `take` under the lock: return the first event or wait for one. -/
def takeFront (s : Inbox) : Inbox :=
  match queueSyncPopFront s.queue with
  | some (event, rest) =>
    { s with queue := rest, waiting := false, returned := s.returned ++ [event] }
  | none => { s with waiting := true }

/-- One step. A receiver stops after a failed read, at the end of the stream or when its client is
told to stop: `disconnect` stands for all of them. -/
def step (s : Inbox) : InboxLabel → Option Inbox
  | .start c =>
    match s.receiver c with
    | .notStarted =>
      some { s.setReceiver c .polling with
        queue := queueSyncPushBack s.queue (newConnectionEvent c) }
    | _ => none
  | .recv c message =>
    match s.receiver c with
    | .polling =>
      some { s.setReceiver c (.holding message) with
        received := Function.update s.received c (s.received c ++ [message]) }
    | _ => none
  | .push c =>
    match s.receiver c with
    | .holding message =>
      some { s.setReceiver c .polling with
        queue := queueSyncPushBack s.queue (messageEvent c message) }
    | _ => none
  | .disconnect c =>
    match s.receiver c with
    | .polling =>
      some { s.setReceiver c .closed with
        queue := queueSyncPushFront s.queue (lostConnectionEvent c) }
    | _ => none
  | .take => if s.waiting then none else some s.takeFront
  | .wake => if s.waiting then some s.takeFront else none
  | .timeout =>
    if s.waiting then some { s with waiting := false, returned := s.returned ++ [emptyEvent] }
    else none

end Inbox

/-! ## What the host sees of a client -/

/-- The event is about the client. -/
def IncomingMessage.About (c : ℕ) (e : IncomingMessage) : Prop :=
  e.messageType ≠ .empty ∧ e.clientId = c

instance (c : ℕ) : DecidablePred (IncomingMessage.About c) := fun _ =>
  inferInstanceAs (Decidable (_ ∧ _))

/-- The events about a client, in order. -/
def eventsAbout (c : ℕ) (events : List IncomingMessage) : List IncomingMessage :=
  events.filter fun e => decide (e.About c)

/-- The life of a client whose messages are `ms`. -/
def clientHistory (c : ℕ) (ms : List Message) : List IncomingMessage :=
  newConnectionEvent c :: ms.map (messageEvent c) ++ [lostConnectionEvent c]

/-- What `take` has returned about the client so far: NEW_CONNECTION, then its messages in the
order they were received, and nothing after LOST_CONNECTION. -/
def Inbox.InOrder (s : Inbox) (c : ℕ) : Prop :=
  ∃ ms, ms <+: s.received c ∧ eventsAbout c s.returned <+: clientHistory c ms

/-- The LOST_CONNECTION of a client is pushed when all its other events have been taken. -/
def overtakesNothing (s : Inbox) : InboxLabel → Prop
  | .disconnect c => eventsAbout c s.queue = []
  | _ => True

/-! ## The events about one client -/

section Events

variable {c c' : ℕ} {e : IncomingMessage} {es es' : List IncomingMessage} {ms : List Message}

@[simp] theorem eventsAbout_nil : eventsAbout c [] = [] := rfl

@[simp] theorem eventsAbout_append :
    eventsAbout c (es ++ es') = eventsAbout c es ++ eventsAbout c es' := by
  simp [eventsAbout]

theorem eventsAbout_cons (c : ℕ) (e : IncomingMessage) (es : List IncomingMessage) :
    eventsAbout c (e :: es) = if e.About c then e :: eventsAbout c es else eventsAbout c es := by
  simp [eventsAbout, List.filter_cons]

theorem eventsAbout_singleton (h : e.About c) : eventsAbout c [e] = [e] := by
  rw [eventsAbout_cons, if_pos h, eventsAbout_nil]

theorem eventsAbout_singleton_of_not (h : ¬ e.About c) : eventsAbout c [e] = [] := by
  rw [eventsAbout_cons, if_neg h, eventsAbout_nil]

theorem about_newConnectionEvent : (newConnectionEvent c').About c ↔ c' = c := by
  simp [IncomingMessage.About, newConnectionEvent]

theorem about_messageEvent {m : Message} : (messageEvent c' m).About c ↔ c' = c := by
  simp [IncomingMessage.About, messageEvent]

theorem about_lostConnectionEvent : (lostConnectionEvent c').About c ↔ c' = c := by
  simp [IncomingMessage.About, lostConnectionEvent]

theorem not_about_emptyEvent : ¬ emptyEvent.About c := fun h => h.1 rfl

/-- In a client's life LOST_CONNECTION is the last event. -/
theorem eq_nil_of_prefix_clientHistory
    (h : es ++ lostConnectionEvent c :: es' <+: clientHistory c ms) : es' = [] := by
  obtain ⟨rest, hrest⟩ := h
  have hlost : ∀ e ∈ newConnectionEvent c :: ms.map (messageEvent c),
      e.messageType ≠ .lostConnection := by
    intro e he
    rcases List.mem_cons.mp he with rfl | he
    · simp [newConnectionEvent]
    · obtain ⟨m, -, rfl⟩ := List.mem_map.mp he
      simp [messageEvent]
  unfold clientHistory at hrest
  rw [List.append_assoc, List.cons_append] at hrest
  rcases List.append_eq_append_iff.mp hrest with ⟨as, hX, hL⟩ | ⟨bs, -, hL⟩
  · cases as with
    | nil => exact (List.append_eq_nil_iff.mp (List.cons.inj hL).2).1
    | cons a as =>
      -- the event before the last one would be a LOST_CONNECTION
      have ha : a = lostConnectionEvent c := (List.cons.inj hL).1.symm
      exact absurd rfl (hlost (lostConnectionEvent c) (by rw [hX, ← ha]; simp))
  · cases bs with
    | nil => exact (List.append_eq_nil_iff.mp (List.cons.inj hL).2.symm).1
    | cons b bs => simpa using congrArg List.length hL

end Events

/-! ## Runs -/

namespace Inbox

/-- The events about a client that have been returned or are in the queue, in order. -/
def life (s : Inbox) (c : ℕ) : List IncomingMessage := eventsAbout c (s.returned ++ s.queue)

/-- What the receiver of the client has pushed so far, in order. -/
def LifeOk (s : Inbox) (c : ℕ) : Prop :=
  match s.receiver c with
  | .notStarted => s.received c = [] ∧ s.life c = []
  | .polling => s.life c = newConnectionEvent c :: (s.received c).map (messageEvent c)
  | .holding m => ∃ ms, s.received c = ms ++ [m] ∧
      s.life c = newConnectionEvent c :: ms.map (messageEvent c)
  | .closed => s.life c = clientHistory c (s.received c)

variable {s t : Inbox} {c : ℕ}

theorem lifeOk_initial (c : ℕ) : initial.LifeOk c := ⟨rfl, rfl⟩

/-- The client is not concerned by a step that keeps its receiver and its events. -/
theorem LifeOk.congr (h : s.LifeOk c) (hreceiver : t.receiver c = s.receiver c)
    (hreceived : t.received c = s.received c) (hlife : t.life c = s.life c) : t.LifeOk c := by
  unfold LifeOk at h ⊢
  rwa [hreceiver, hreceived, hlife]

theorem life_of_pushBack {e : IncomingMessage} (hreturned : t.returned = s.returned)
    (hqueue : t.queue = queueSyncPushBack s.queue e) :
    t.life c = s.life c ++ eventsAbout c [e] := by
  simp [life, hreturned, hqueue, queueSyncPushBack]

/-- An event that is pushed at the front comes last if nothing about its client is in the queue. -/
theorem life_of_pushFront {e : IncomingMessage} (hreturned : t.returned = s.returned)
    (hqueue : t.queue = queueSyncPushFront s.queue e)
    (hnothing : e.About c → eventsAbout c s.queue = []) :
    t.life c = s.life c ++ eventsAbout c [e] := by
  rw [life, life, hreturned, hqueue, queueSyncPushFront]
  by_cases he : e.About c
  · simp [eventsAbout_cons, he, hnothing he]
  · simp [eventsAbout_cons, he]

theorem life_takeFront (s : Inbox) (c : ℕ) : s.takeFront.life c = s.life c := by
  unfold takeFront life
  cases hq : queueSyncPopFront s.queue with
  | none => rfl
  | some p =>
    obtain ⟨event, rest⟩ := p
    rw [queueSyncPopFront_eq_some.mp hq]
    simp

theorem lifeOk_takeFront (h : s.LifeOk c) : s.takeFront.LifeOk c := by
  refine h.congr ?_ ?_ (life_takeFront s c) <;> unfold takeFront <;> split <;> rfl

theorem lifeOk_start {c' : ℕ} (h : s.LifeOk c) (hstep : s.step (.start c') = some t) :
    t.LifeOk c := by
  simp only [step] at hstep
  split at hstep <;> simp only [Option.some.injEq, reduceCtorEq] at hstep
  rename_i hpc
  have hlife : t.life c = s.life c ++ eventsAbout c [newConnectionEvent c'] :=
    life_of_pushBack (by rw [← hstep]; rfl) (by rw [← hstep])
  by_cases hc : c' = c
  · subst hc
    rw [eventsAbout_singleton (about_newConnectionEvent.mpr rfl)] at hlife
    rw [LifeOk, hpc] at h
    rw [h.2] at hlife
    subst hstep
    simpa [LifeOk, setReceiver, h.1] using hlife
  · rw [eventsAbout_singleton_of_not (mt about_newConnectionEvent.mp hc), List.append_nil] at hlife
    subst hstep
    exact h.congr (Function.update_of_ne (Ne.symm hc) _ _) rfl hlife

theorem lifeOk_recv {c' : ℕ} {m : Message} (h : s.LifeOk c)
    (hstep : s.step (.recv c' m) = some t) : t.LifeOk c := by
  simp only [step] at hstep
  split at hstep <;> simp only [Option.some.injEq, reduceCtorEq] at hstep
  rename_i hpc
  have hlife : t.life c = s.life c := by rw [← hstep]; rfl
  by_cases hc : c' = c
  · subst hc
    rw [LifeOk, hpc] at h
    rw [h] at hlife
    subst hstep
    simpa [LifeOk, setReceiver] using hlife
  · subst hstep
    exact h.congr (Function.update_of_ne (Ne.symm hc) _ _)
      (Function.update_of_ne (Ne.symm hc) _ _) hlife

theorem lifeOk_push {c' : ℕ} (h : s.LifeOk c) (hstep : s.step (.push c') = some t) :
    t.LifeOk c := by
  simp only [step] at hstep
  split at hstep <;> simp only [Option.some.injEq, reduceCtorEq] at hstep
  rename_i m hpc
  have hlife : t.life c = s.life c ++ eventsAbout c [messageEvent c' m] :=
    life_of_pushBack (by rw [← hstep]; rfl) (by rw [← hstep])
  by_cases hc : c' = c
  · subst hc
    rw [eventsAbout_singleton (about_messageEvent.mpr rfl)] at hlife
    rw [LifeOk, hpc] at h
    obtain ⟨ms, hreceived, hpushed⟩ := h
    rw [hpushed] at hlife
    subst hstep
    simpa [LifeOk, setReceiver, hreceived] using hlife
  · rw [eventsAbout_singleton_of_not (mt about_messageEvent.mp hc), List.append_nil] at hlife
    subst hstep
    exact h.congr (Function.update_of_ne (Ne.symm hc) _ _) rfl hlife

theorem lifeOk_disconnect {c' : ℕ} (h : s.LifeOk c) (hok : eventsAbout c' s.queue = [])
    (hstep : s.step (.disconnect c') = some t) : t.LifeOk c := by
  simp only [step] at hstep
  split at hstep <;> simp only [Option.some.injEq, reduceCtorEq] at hstep
  rename_i hpc
  have hlife : t.life c = s.life c ++ eventsAbout c [lostConnectionEvent c'] := by
    refine life_of_pushFront (by rw [← hstep]; rfl) (by rw [← hstep]) fun hc => ?_
    rwa [about_lostConnectionEvent.mp hc] at hok
  by_cases hc : c' = c
  · subst hc
    rw [eventsAbout_singleton (about_lostConnectionEvent.mpr rfl)] at hlife
    unfold LifeOk at h
    rw [hpc] at h
    rw [h] at hlife
    subst hstep
    simpa [LifeOk, setReceiver, clientHistory] using hlife
  · rw [eventsAbout_singleton_of_not (mt about_lostConnectionEvent.mp hc), List.append_nil] at hlife
    subst hstep
    exact h.congr (Function.update_of_ne (Ne.symm hc) _ _) rfl hlife

/-- A step that overtakes nothing continues the life of every client. -/
theorem lifeOk_step {l : InboxLabel} (h : s.LifeOk c) (hok : overtakesNothing s l)
    (hstep : s.step l = some t) : t.LifeOk c := by
  cases l with
  | start c' => exact lifeOk_start h hstep
  | recv c' m => exact lifeOk_recv h hstep
  | push c' => exact lifeOk_push h hstep
  | disconnect c' => exact lifeOk_disconnect h hok hstep
  | take =>
    unfold step at hstep
    split_ifs at hstep
    exact Option.some.inj hstep ▸ lifeOk_takeFront h
  | wake =>
    unfold step at hstep
    split_ifs at hstep
    exact Option.some.inj hstep ▸ lifeOk_takeFront h
  | timeout =>
    unfold step at hstep
    split_ifs at hstep
    obtain rfl := Option.some.inj hstep
    refine h.congr rfl rfl ?_
    simp [life, eventsAbout_cons, not_about_emptyEvent]

/-- What has been returned is the beginning of the life. -/
theorem inOrder_of_lifeOk (h : s.LifeOk c) : s.InOrder c := by
  have hinitial : eventsAbout c s.returned <+: s.life c := by
    unfold life
    rw [eventsAbout_append]
    exact List.prefix_append _ _
  have hhistory : ∃ ms, ms <+: s.received c ∧ s.life c <+: clientHistory c ms := by
    unfold LifeOk at h
    split at h
    · exact ⟨[], List.nil_prefix, by rw [h.2]; exact List.nil_prefix⟩
    · exact ⟨_, List.prefix_refl _, by rw [h]; exact List.prefix_append _ _⟩
    · obtain ⟨ms, hreceived, hlife⟩ := h
      exact ⟨ms, by rw [hreceived]; exact List.prefix_append _ _, by
        rw [hlife]; exact List.prefix_append _ _⟩
    · exact ⟨_, List.prefix_refl _, h ▸ List.prefix_refl _⟩
  obtain ⟨ms, hms, hlife⟩ := hhistory
  exact ⟨ms, hms, hinitial.trans hlife⟩

end Inbox

/-- **Order.** In a run in which no LOST_CONNECTION overtakes events of its client, the host sees
the events of every client in order. -/
theorem inOrder_of_reach (s : Inbox)
    (hreach : Lts.Reach Inbox.step overtakesNothing Inbox.initial s) (c : ℕ) : s.InOrder c :=
  Inbox.inOrder_of_lifeOk (hreach.invariant (Inbox.lifeOk_initial c) fun _ _ _ hI hok hstep =>
    Inbox.lifeOk_step hI hok hstep)

/-- Client 3 connects, sends a message and leaves when the host has taken both events. -/
def visit : List InboxLabel :=
  [.start 3, .recv 3 (Message.ofBytes [11]), .push 3, .take, .take, .disconnect 3, .take]

theorem inOrder_of_reach_visit : ∃ s, Lts.run Inbox.step visit Inbox.initial = some s ∧
    s.returned.length = 3 ∧ s.InOrder 3 := by
  obtain ⟨s, hs, hlength⟩ : ∃ s, Lts.run Inbox.step visit Inbox.initial = some s ∧
      s.returned.length = 3 := ⟨_, rfl, rfl⟩
  have halong : Lts.Along Inbox.step overtakesNothing visit Inbox.initial :=
    .cons rfl trivial <| .cons rfl trivial <| .cons rfl trivial <| .cons rfl trivial <|
      .cons rfl trivial <| .cons rfl (Eq.refl []) <| .cons rfl trivial trivial
  exact ⟨s, hs, hlength, inOrder_of_reach s (.of_along hs halong) 3⟩

/-- A client that leaves before the host has taken its NEW_CONNECTION is lost first. -/
theorem lost_before_new : ¬ ∀ (s : Inbox), Lts.Reach Inbox.step Lts.Any Inbox.initial s →
    ∀ c, s.InOrder c := by
  intro h
  have hrun : Lts.run Inbox.step [.start 3, .disconnect 3, .take] Inbox.initial
      = some ⟨[newConnectionEvent 3], Function.update (Function.update (fun _ => .notStarted) 3
        .polling) 3 .closed, false, fun _ => [], [lostConnectionEvent 3]⟩ := rfl
  obtain ⟨ms, -, hinitial⟩ := h _ (.of_run hrun) 3
  have hfirst := List.cons_prefix_cons.mp hinitial
  exact absurd (congrArg IncomingMessage.messageType hfirst.1) (by decide)

namespace Inbox

/-- As many calls of `take` as there are events return all of them. -/
theorem run_takes (s : Inbox) (h : s.waiting = false) :
    Lts.run step (List.replicate s.queue.length .take) s =
      some { s with queue := [], returned := s.returned ++ s.queue } := by
  obtain ⟨queue, receiver, waiting, received, returned⟩ := s
  obtain rfl : waiting = false := h
  induction queue generalizing returned with
  | nil => simp
  | cons e queue ih =>
    rw [List.length_cons, List.replicate_succ, Lts.run_cons]
    refine (ih (returned ++ [e])).trans ?_
    simp

/-- Every state in which a LOST_CONNECTION would overtake an event of its client leads to one in
which the order is lost. -/
theorem not_inOrder_of_overtaking {s : Inbox} {c : ℕ} (hwaiting : s.waiting = false)
    (hpolling : s.receiver c = .polling) (hpending : eventsAbout c s.queue ≠ []) :
    ∃ t, Lts.run step (.disconnect c :: List.replicate (s.queue.length + 1) .take) s = some t ∧
      ¬ t.InOrder c := by
  let u : Inbox := { s.setReceiver c .closed with
    queue := queueSyncPushFront s.queue (lostConnectionEvent c) }
  have hlost : s.step (.disconnect c) = some u := by simp [step, hpolling, u]
  refine ⟨_, by rw [Lts.run_cons, hlost]; exact run_takes u hwaiting, ?_⟩
  rintro ⟨ms, -, hinitial⟩
  have hlostAbout : (lostConnectionEvent c).About c := about_lostConnectionEvent.mpr rfl
  have hevents : eventsAbout c (s.returned ++ lostConnectionEvent c :: s.queue)
      = eventsAbout c s.returned ++ lostConnectionEvent c :: eventsAbout c s.queue := by
    rw [eventsAbout_append, eventsAbout_cons, if_pos hlostAbout]
  have hlast : eventsAbout c s.returned ++ lostConnectionEvent c :: eventsAbout c s.queue
      <+: clientHistory c ms := hevents ▸ hinitial
  exact hpending (eq_nil_of_prefix_clientHistory hlast)

end Inbox

end PRShooter
