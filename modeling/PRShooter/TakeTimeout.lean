import PRShooter.Receive

/-!
# `take` and its timed wait

`take` and `waitForMessage` of `Server/server_receive.c`, with the timed wait taken apart: the wait
gives the lock back, ends by a signal, by itself or by the deadline, and then has to get the lock
again. Every push and every stretch of `take` under the lock is one step. Only a MESSAGE is pushed
with a signal, and behind a timeout `take` does not look at the queue again (`honest_iff`).

The deadline may pass at any moment after the wait has begun, whatever `wait_seconds` is.
-/

namespace PRShooter

/-- Where the host is. -/
inductive HostThread where
  | outside
  /-- In `pthread_cond_timedwait`, without the lock. -/
  | waiting
  /-- The wait has ended by a signal or by itself, and is about to get the lock. -/
  | woken
  /-- The wait has timed out, and is about to get the lock. -/
  | timedOut
  deriving DecidableEq

/-- `received_messages`, the host, and what `take` has returned, each with the queue at the moment it
gave the lock back. -/
structure Taking where
  queue : SynchronizedQueue IncomingMessage
  host : HostThread
  returned : List (IncomingMessage × SynchronizedQueue IncomingMessage)

/-- A critical section of a receiver, or a step of the host. -/
inductive TakingLabel where
  | pushNewConnection (clientId : ℕ)
  | pushMessage (clientId : ℕ) (message : Message)
  | pushLostConnection (clientId : ℕ)
  /-- The host calls `take` and gets the lock. -/
  | take
  /-- `pthread_cond_timedwait` ends without a signal before the deadline. -/
  | spurious
  | timeout
  /-- The wait has got the lock again. -/
  | relock

/-- `pthread_cond_signal`: it ends a wait that has not ended otherwise. -/
def HostThread.signal : HostThread → HostThread
  | .waiting => .woken
  | host => host

namespace Taking

def initial : Taking := ⟨[], .outside, []⟩

/-- The loop of `waitForMessage` under the lock, and the rest of `take` if it ends. -/
def takeFront (s : Taking) : Taking :=
  match queueSyncPopFront s.queue with
  | some (event, rest) =>
    { queue := rest, host := .outside, returned := s.returned ++ [(event, rest)] }
  | none => { s with host := .waiting }

/-- One step. -/
def step (s : Taking) : TakingLabel → Option Taking
  | .pushNewConnection c =>
    some { s with queue := queueSyncPushBack s.queue (newConnectionEvent c) }
  | .pushMessage c message =>
    some { s with
      queue := queueSyncPushBack s.queue (messageEvent c message)
      host := s.host.signal }
  | .pushLostConnection c =>
    some { s with queue := queueSyncPushFront s.queue (lostConnectionEvent c) }
  | .take => if s.host = .outside then some s.takeFront else none
  | .spurious => if s.host = .waiting then some { s with host := .woken } else none
  | .timeout => if s.host = .waiting then some { s with host := .timedOut } else none
  | .relock =>
    match s.host with
    | .woken => some s.takeFront
    | .timedOut =>
      some { s with host := .outside, returned := s.returned ++ [(emptyEvent, s.queue)] }
    | _ => none

/-- Whenever `take` has returned EMPTY, the queue was empty as it gave the lock back. -/
def Honest (s : Taking) : Prop := ∀ r ∈ s.returned, r.1.messageType = .empty → r.2 = []

/-- The queue is empty when the wait times out, and nothing is pushed before it has the lock again. -/
def Undisturbed (s : Taking) : TakingLabel → Prop
  | .timeout => s.queue = []
  | .pushNewConnection _ | .pushMessage _ _ | .pushLostConnection _ => s.host ≠ .timedOut
  | _ => True

variable {s t : Taking} {l : TakingLabel}

/-! ## What a step does -/

/-- One case for each kind of step. -/
inductive Move (s : Taking) : TakingLabel → Taking → Prop
  /-- An event is pushed, with or without the signal. -/
  | push {l : TakingLabel} {queue : SynchronizedQueue IncomingMessage} {host : HostThread}
      (hok : s.Undisturbed l ↔ s.host ≠ .timedOut) (hqueue : queue ≠ [])
      (hevents : (∀ e ∈ s.queue, e.messageType ≠ .empty) → ∀ e ∈ queue, e.messageType ≠ .empty)
      (hhost : host = .timedOut ↔ s.host = .timedOut) : Move s l { s with queue, host }
  /-- The host looks at the queue. -/
  | takeFront {l : TakingLabel} (hok : s.Undisturbed l) (hhost : s.host ≠ .timedOut) :
      Move s l s.takeFront
  | spurious (hhost : s.host = .waiting) : Move s .spurious { s with host := .woken }
  | timeout (hhost : s.host = .waiting) : Move s .timeout { s with host := .timedOut }
  /-- The host returns EMPTY without a look at the queue. -/
  | returnEmpty (hhost : s.host = .timedOut) :
      Move s .relock
        { s with host := .outside, returned := s.returned ++ [(emptyEvent, s.queue)] }

theorem HostThread.signal_eq_timedOut {host : HostThread} :
    host.signal = .timedOut ↔ host = .timedOut := by
  cases host <;> simp [HostThread.signal]

theorem events_pushBack {queue : SynchronizedQueue IncomingMessage} {event : IncomingMessage}
    (hevent : event.messageType ≠ .empty) (h : ∀ e ∈ queue, e.messageType ≠ .empty) :
    ∀ e ∈ queueSyncPushBack queue event, e.messageType ≠ .empty := by
  intro e he
  rcases List.mem_append.mp he with he | he
  · exact h e he
  · rw [List.mem_singleton.mp he]
    exact hevent

theorem move_of_step (hstep : s.step l = some t) : s.Move l t := by
  cases l with
  | pushNewConnection c =>
    obtain rfl := Option.some.inj hstep
    have hne : queueSyncPushBack s.queue (newConnectionEvent c) ≠ [] :=
      List.append_ne_nil_of_right_ne_nil _ (List.cons_ne_nil _ _)
    exact .push Iff.rfl hne (events_pushBack MessageType.noConfusion) Iff.rfl
  | pushMessage c message =>
    obtain rfl := Option.some.inj hstep
    have hne : queueSyncPushBack s.queue (messageEvent c message) ≠ [] :=
      List.append_ne_nil_of_right_ne_nil _ (List.cons_ne_nil _ _)
    exact .push Iff.rfl hne (events_pushBack MessageType.noConfusion)
      HostThread.signal_eq_timedOut
  | pushLostConnection c =>
    obtain rfl := Option.some.inj hstep
    refine .push Iff.rfl (List.cons_ne_nil _ _) (fun h e he => ?_) Iff.rfl
    rcases List.mem_cons.mp he with rfl | he
    · exact MessageType.noConfusion
    · exact h e he
  | take =>
    simp only [step] at hstep
    split_ifs at hstep with hhost
    obtain rfl := Option.some.inj hstep
    exact .takeFront trivial (by rw [hhost]; decide)
  | spurious =>
    simp only [step] at hstep
    split_ifs at hstep with hhost
    obtain rfl := Option.some.inj hstep
    exact .spurious hhost
  | timeout =>
    simp only [step] at hstep
    split_ifs at hstep with hhost
    obtain rfl := Option.some.inj hstep
    exact .timeout hhost
  | relock =>
    simp only [step] at hstep
    split at hstep
    next hhost =>
      obtain rfl := Option.some.inj hstep
      exact .takeFront trivial (by rw [hhost]; decide)
    next hhost =>
      obtain rfl := Option.some.inj hstep
      exact .returnEmpty hhost
    next => cases hstep

/-! ## Undisturbed runs -/

/-- The queue contains events, and none while a timed-out wait is on its way to the lock. -/
structure Quiet (s : Taking) : Prop where
  events : ∀ e ∈ s.queue, e.messageType ≠ .empty
  timedOut : s.host = .timedOut → s.queue = []
  honest : s.Honest

theorem quiet_initial : initial.Quiet := ⟨by simp [initial], fun _ => rfl, by simp [Honest, initial]⟩

theorem Quiet.takeFront (h : s.Quiet) : s.takeFront.Quiet := by
  unfold Taking.takeFront
  cases hqueue : s.queue with
  | nil =>
    refine ⟨fun e he => absurd he List.not_mem_nil, ?_, h.honest⟩
    intro hhost
    cases hhost
  | cons event rest =>
    have hevents := h.events
    rw [hqueue] at hevents
    refine ⟨fun e he => hevents e (List.mem_cons_of_mem _ he), ?_, ?_⟩
    · intro hhost
      cases hhost
    · intro r hr hempty
      rcases List.mem_append.mp hr with hr | hr
      · exact h.honest r hr hempty
      · rw [List.mem_singleton.mp hr] at hempty
        exact absurd hempty (hevents event List.mem_cons_self)

theorem quiet_step (h : s.Quiet) (hok : s.Undisturbed l) (hstep : s.step l = some t) : t.Quiet := by
  cases move_of_step hstep with
  | push hundisturbed hqueue hevents hhost =>
    refine ⟨hevents h.events, fun htimedOut => ?_, h.honest⟩
    exact absurd (hhost.mp htimedOut) (hundisturbed.mp hok)
  | takeFront => exact h.takeFront
  | spurious =>
    refine ⟨h.events, fun hhost => ?_, h.honest⟩
    cases hhost
  | timeout => exact ⟨h.events, fun _ => hok, h.honest⟩
  | returnEmpty hhost =>
    refine ⟨h.events, fun houtside => ?_, fun r hr hempty => ?_⟩
    · cases houtside
    · rcases List.mem_append.mp hr with hr | hr
      · exact h.honest r hr hempty
      · rw [List.mem_singleton.mp hr]
        exact h.timedOut hhost

/-- In undisturbed runs every EMPTY is honest. -/
theorem honest_of_along {ls : List TakingLabel} (h : Lts.run step ls initial = some t)
    (halong : Lts.Along step Undisturbed ls initial) : t.Honest := by
  have hreach : Lts.Reach step Undisturbed initial t := .of_along h halong
  exact (hreach.invariant (I := Quiet) quiet_initial
    fun _ _ _ hI hok hstep => quiet_step hI hok hstep).honest

/-! ## Disturbed runs -/

/-- A timed-out wait is on its way to the lock while the queue contains something. -/
def Disturbed (s : Taking) : Prop := s.host = .timedOut ∧ s.queue ≠ []

theorem disturbed_of_step (hok : ¬ s.Undisturbed l) (hstep : s.step l = some t) : t.Disturbed := by
  cases move_of_step hstep with
  | push hundisturbed hqueue hevents hhost =>
    have htimedOut : s.host = .timedOut := by
      by_contra hnot
      exact hok (hundisturbed.mpr hnot)
    exact ⟨hhost.mpr htimedOut, hqueue⟩
  | takeFront hundisturbed => exact absurd hundisturbed hok
  | spurious | returnEmpty => exact absurd trivial hok
  | timeout => exact ⟨rfl, hok⟩

/-- The next step of the host returns EMPTY in spite of the queue. -/
theorem Disturbed.step (h : s.Disturbed) (hstep : s.step l = some t) :
    t.Disturbed ∨ ¬ t.Honest := by
  obtain ⟨htimedOut, hqueue⟩ := h
  cases move_of_step hstep with
  | push hundisturbed hmore hevents hhost => exact .inl ⟨hhost.mpr htimedOut, hmore⟩
  | takeFront hundisturbed hhost => exact absurd htimedOut hhost
  | spurious hhost | timeout hhost =>
    rw [htimedOut] at hhost
    cases hhost
  | returnEmpty =>
    right
    intro hhonest
    exact hqueue (hhonest (emptyEvent, s.queue) (List.mem_append_right _ (by simp)) rfl)

/-- What has been returned is never forgotten. -/
theorem prefix_returned (hstep : s.step l = some t) : s.returned <+: t.returned := by
  cases move_of_step hstep with
  | push | spurious | timeout => exact List.prefix_refl _
  | takeFront =>
    unfold takeFront
    split
    · exact List.prefix_append _ _
    · exact List.prefix_refl _
  | returnEmpty => exact List.prefix_append _ _

/-- A run that is disturbed somewhere and ends outside of `take` has returned a wrong EMPTY. -/
theorem not_honest_of_disturbed {ls : List TakingLabel} (hrun : Lts.run step ls s = some t)
    (houtside : t.host = .outside) (h : s.Disturbed ∨ ¬ s.Honest) : ¬ t.Honest := by
  have hend : t.Disturbed ∨ ¬ t.Honest := by
    refine Lts.run_invariant (I := fun u => u.Disturbed ∨ ¬ u.Honest) hrun h ?_
    intro u l _ v hu hstep
    rcases hu with hu | hu
    · exact hu.step hstep
    · right
      intro hhonest
      exact hu fun r hr => hhonest r ((prefix_returned hstep).subset hr)
  rcases hend with hend | hend
  · rw [hend.1] at houtside
    cases houtside
  · exact hend

theorem along_of_honest {ls : List TakingLabel} (hrun : Lts.run step ls s = some t)
    (houtside : t.host = .outside) (hhonest : t.Honest) : Lts.Along step Undisturbed ls s := by
  induction ls generalizing s with
  | nil => trivial
  | cons l ls ih =>
    obtain ⟨u, hu, hrest⟩ := Option.bind_eq_some_iff.mp hrun
    refine Lts.Along.cons hu ?_ (ih hrest)
    by_contra hok
    exact not_honest_of_disturbed hrest houtside (.inl (disturbed_of_step hok hu)) hhonest

/-- **Empty takes.** In every run whose steps are undisturbed, the queue was empty whenever `take`
returned EMPTY, and in a run that ends outside of `take` only then. -/
theorem honest_iff (ls : List TakingLabel) (t : Taking) (h : Lts.run step ls initial = some t) :
    (Lts.Along step Undisturbed ls initial → t.Honest) ∧
      (t.host = .outside → t.Honest → Lts.Along step Undisturbed ls initial) :=
  ⟨honest_of_along h, along_of_honest h⟩

/-- A wait that a MESSAGE ends, and one that times out on an empty queue. -/
def quietTakes : List TakingLabel :=
  [.pushNewConnection 3, .take, .take, .pushMessage 3 (.ofBytes [10]), .relock, .take, .timeout,
    .relock, .pushLostConnection 3]

theorem honest_iff_quietTakes : ∃ t, Lts.run step quietTakes initial = some t ∧ t.Honest ∧
    t.returned.length = 3 := by
  refine ⟨_, rfl, (honest_iff quietTakes _ rfl).1 ?_, rfl⟩
  simp [quietTakes, Lts.Along, Undisturbed, step, initial, takeFront, queueSyncPopFront,
    queueSyncPushBack, HostThread.signal]

/-- A client connects while the host is waiting; nothing wakes the host, which times out and returns
EMPTY in spite of the NEW_CONNECTION. -/
theorem empty_in_spite : ¬ ∀ t, Lts.Reach step Lts.Any initial t → t.Honest := by
  intro h
  have hrun : Lts.run step [.take, .pushNewConnection 0, .timeout, .relock] initial
      = some ⟨[newConnectionEvent 0], .outside, [(emptyEvent, [newConnectionEvent 0])]⟩ := rfl
  have hempty := h _ (.of_run hrun) _ List.mem_cons_self rfl
  cases hempty

end Taking

end PRShooter
