import PRShooter.ReceivedBuffers
import Mathlib.Data.Set.Finite.Basic

/-!
# The end of `stopServer`

Once the listener has been joined there are no new clients and nobody takes messages.
`stopReceivingThreads` has set every status to STOP and joins the receivers, and
`destroyReceivedQueue` disposes of what they have pushed. Wherever a receiver is, and whatever its
calls return, it is at its end after a bounded number of calls (`stopServer_returns`). A step is the
return of a call: `recv` with `MSG_WAITALL` blocks for as long as a client that has sent a part of a
frame keeps the connection open, and `stopServer` comes back only if it returns.
-/

namespace PRShooter

/-! ## The distance to the end -/

/-- What `getClientStatus` returns is not RUNNING. -/
def ReceiverLabel.readsStop : ReceiverLabel → Bool
  | .status running => !running
  | _ => true

def ReceivedLabel.readsStop : ReceivedLabel → Bool
  | .receiver _ label => label.readsStop
  | _ => true

/-- The calls a receiver makes at most before it has returned, and one more for each event it leaves
on the queue. -/
def ReceiverCall.stepsLeft : ReceiverCall → ℕ
  | .returned => 0
  | .close => 1
  | .pushDisconnected => 3
  | .getClientStatus => 4
  | .pushConnected | .pushMessage _ _ => 6
  | .recvData _ _ => 7
  | .malloc _ => 8
  | .recvSize => 9
  | .poll => 10

/-- The joins and the end of `destroyReceivedQueue`. -/
def StopStage.stepsLeft : StopStage → ℕ
  | .notCalled => 4
  | .stopping => 3
  | .listenerJoined => 2
  | .destroying => 1
  | .returned => 0

namespace ReceiverState

theorem afterRecvSize_stepsLeft (r : ReceiverState) (ok : Bool) :
    (r.afterRecvSize ok).call.stepsLeft ≤ 8 := by
  simp only [afterRecvSize]
  split_ifs <;> simp [ReceiverCall.stepsLeft]

theorem afterRecvData_stepsLeft (r : ReceiverState) (size buffer : ℕ) (ok : Bool)
    (behind : ℕ → UInt8) : (r.afterRecvData size buffer ok behind).1.call.stepsLeft ≤ 6 ∧
      (r.afterRecvData size buffer ok behind).2.events = [] := by
  simp only [afterRecvData]
  split_ifs <;> exact ⟨by simp [ReceiverCall.stepsLeft], rfl⟩

theorem stepsLeft_step {r r' : ReceiverState} {l : ReceiverLabel} {effect : ReceiverEffect}
    (hl : l.readsStop = true) (h : r.step l = some (r', effect)) :
    r'.call.stepsLeft + effect.events.length < r.call.stepsLeft := by
  cases calls_of_step h with
  | status running hcall =>
    obtain rfl : running = false := by simpa [ReceiverLabel.readsStop] using hl
    simp [hcall, ReceiverCall.stepsLeft, ReceiverEffect.events]
  | recvSize ok hcall =>
    rw [hcall]
    exact Nat.lt_succ_of_le (r.afterRecvSize_stepsLeft ok)
  | recvData size buffer ok behind hcall =>
    obtain ⟨hle, hevents⟩ := r.afterRecvData_stepsLeft size buffer ok behind
    rw [hcall, hevents]
    exact Nat.lt_succ_of_le hle
  | connected hcall | disconnected hcall | pollFailed hcall | pollReadable hcall
  | pollAgain _ hcall | closed hcall | malloc _ _ hcall | message _ _ hcall =>
    simp [hcall, ReceiverCall.stepsLeft, ReceiverEffect.events]

/-- A receiver that has not returned can make its next call. -/
theorem exists_step {r : ReceiverState} (h : r.call ≠ .returned) (buffer : ℕ) :
    ∃ l, l.readsStop = true ∧ ∃ r' effect, r.step l = some (r', effect) ∧
      ∀ heap, buffer ∉ Ownership.acquired heap → effect.Fresh heap := by
  cases hcall : r.call with
  | returned => exact absurd hcall h
  | pushConnected | pushMessage _ _ | pushDisconnected =>
    refine ⟨.pushed, rfl, ?_⟩
    simp only [step, hcall]
    exact ⟨_, _, rfl, fun _ _ => trivial⟩
  | getClientStatus =>
    refine ⟨.status false, rfl, ?_⟩
    simp only [step, hcall]
    exact ⟨_, _, rfl, fun _ _ => trivial⟩
  | poll =>
    refine ⟨.poll .timeout, rfl, ?_⟩
    simp only [step, hcall]
    exact ⟨_, _, rfl, fun _ _ => trivial⟩
  | recvSize =>
    refine ⟨.recvSize false, rfl, ?_⟩
    simp only [step, hcall]
    exact ⟨_, _, rfl, fun _ _ => trivial⟩
  | malloc size =>
    refine ⟨.malloc buffer, rfl, ?_⟩
    simp only [step, hcall]
    exact ⟨_, _, rfl, fun _ hfresh => hfresh⟩
  | recvData size data =>
    refine ⟨.recvData false fun _ => 0, rfl, ?_⟩
    simp only [step, hcall]
    exact ⟨_, _, rfl, fun _ _ => trivial⟩
  | close =>
    refine ⟨.closed, rfl, ?_⟩
    simp only [step, hcall]
    exact ⟨_, _, rfl, fun _ _ => trivial⟩

end ReceiverState

namespace ReceivedBuffers

variable {s t : ReceivedBuffers}

/-- The steps to the end of `stopServer` at most, with those in which the host destroys its
wrappers. -/
def stepsLeft (s : ReceivedBuffers) : ℕ :=
  (s.threads.map fun thread => thread.call.stepsLeft).sum + s.queue.length + s.wrappers.length
    + s.stage.stepsLeft

/-- The listener has been joined. -/
def Ending (s : ReceivedBuffers) : Prop := s.stage ≠ .notCalled ∧ s.stage ≠ .stopping

theorem sum_map_set_add {α : Type} (f : α → ℕ) {l : List α} {i : ℕ} {a : α} (h : l[i]? = some a)
    (b : α) : ((l.set i b).map f).sum + f a = (l.map f).sum + f b := by
  induction l generalizing i with
  | nil => cases h
  | cons c l ih =>
    cases i with
    | zero =>
      obtain rfl := Option.some.inj h
      simp only [List.set_cons_zero, List.map_cons, List.sum_cons]
      omega
    | succ i =>
      have htail := ih h
      simp only [List.set_cons_succ, List.map_cons, List.sum_cons]
      omega

theorem stepsLeft_receiver {c : ℕ} {l : ReceiverLabel} (hl : l.readsStop = true)
    (hstep : s.step (.receiver c l) = some t) : t.stage = s.stage ∧ t.stepsLeft < s.stepsLeft := by
  obtain ⟨⟨thread', effect⟩, hthread', hstep⟩ := Option.bind_eq_some_iff.mp hstep
  obtain ⟨thread, hthread, hcall⟩ := Option.bind_eq_some_iff.mp hthread'
  dsimp only at hstep
  split_ifs at hstep
  obtain rfl := Option.some.inj hstep
  have hlt := ReceiverState.stepsLeft_step hl hcall
  have hsum := sum_map_set_add (fun thread : ReceiverState => thread.call.stepsLeft) hthread thread'
  cases effect <;>
    · refine ⟨rfl, ?_⟩
      simp only [stepsLeft, apply, queueSyncPushBack, queueSyncPushFront, List.length_append,
        List.length_cons, List.length_nil, ReceiverEffect.events] at hlt ⊢
      omega

/-- Each step brings the end nearer. -/
theorem stepsLeft_step {l : ReceivedLabel} (hok : s.Ok) (hending : s.Ending)
    (hl : l.readsStop = true) (hstep : s.step l = some t) :
    t.Ending ∧ t.stepsLeft < s.stepsLeft := by
  have hhost := hok.stage.host hending.1
  cases l with
  | receiver c l =>
    obtain ⟨hstage, hlt⟩ := stepsLeft_receiver hl hstep
    exact ⟨by rw [Ending, hstage]; exact hending, hlt⟩
  | addClient created sent | joinListener =>
    simp only [step] at hstep
    split_ifs at hstep with hstage
    simp_all [Ending]
  | take | stopServer =>
    simp only [step, hhost] at hstep
    split at hstep
    next hstage => exact absurd hstage hending.1
    next => cases hstep
  | wake | timeout | wrap => simp only [step, hhost, reduceCtorEq] at hstep
  | destroyWrapper i =>
    obtain ⟨wrapper, hwrapper, rfl⟩ := Option.map_eq_some_iff.mp hstep
    have hlt := (List.getElem?_eq_some_iff.mp hwrapper).1
    refine ⟨hending, ?_⟩
    simp only [stepsLeft, List.length_eraseIdx_of_lt hlt]
    omega
  | stopReceivingThreads | queueSyncDestroy =>
    simp only [step] at hstep
    split_ifs at hstep with hstage
    obtain rfl := Option.some.inj hstep
    refine ⟨by simp [Ending], ?_⟩
    simp only [stepsLeft, hstage.1, StopStage.stepsLeft]
    omega
  | dispose =>
    simp only [step] at hstep
    split_ifs at hstep
    obtain ⟨⟨msg, rest⟩, hpop, rfl⟩ := Option.map_eq_some_iff.mp hstep
    refine ⟨hending, ?_⟩
    simp only [stepsLeft, queueSyncPopFront_eq_some.mp hpop, List.length_cons]
    omega

/-- Until `stopServer` has returned, a receiver can go on, or `stopServer` can. -/
theorem exists_step (hending : s.Ending) (hreturned : s.stage ≠ .returned) :
    ∃ l : ReceivedLabel, l.readsStop = true ∧ (s.step l).isSome := by
  obtain ⟨buffer, hbuffer⟩ := Infinite.exists_notMem_finset (Ownership.acquired s.heap).toFinset
  rw [List.mem_toFinset] at hbuffer
  cases hstage : s.stage with
  | notCalled => exact absurd hstage hending.1
  | stopping => exact absurd hstage hending.2
  | returned => exact absurd hstage hreturned
  | listenerJoined =>
    by_cases hall : s.threads.all (fun thread => thread.call.hasReturned) = true
    · exact ⟨.stopReceivingThreads, rfl, by simp [step, hstage, hall]⟩
    · obtain ⟨thread, hmem, hruns⟩ : ∃ thread ∈ s.threads, thread.call.hasReturned = false := by
        simpa using hall
      obtain ⟨c, hc⟩ := List.mem_iff_getElem?.mp hmem
      have hcall : thread.call ≠ .returned := fun hcall => by
        rw [hcall] at hruns
        cases hruns
      obtain ⟨l, hl, thread', effect, hstep, hfresh⟩ := ReceiverState.exists_step hcall buffer
      refine ⟨.receiver c l, hl, ?_⟩
      simp [step, hc, hstep, hfresh s.heap hbuffer]
  | destroying =>
    cases hqueue : s.queue with
    | nil => exact ⟨.queueSyncDestroy, rfl, by simp [step, hstage, hqueue, queueSyncIsEmpty]⟩
    | cons msg rest =>
      exact ⟨.dispose, rfl, by simp [step, hstage, hqueue, queueSyncPopFront]⟩

end ReceivedBuffers

/-- **The end of `stopServer`.** From the join of the listener on, if `getClientStatus` gives what
`stopReceivingThreads` has set, the receivers, the host and `stopServer` make at most `stepsLeft`
steps in any order and with any results of their calls; until it has returned one of them can go on
as soon as its call returns, and then all receivers have returned and the queue is empty. -/
theorem stopServer_returns (s t : ReceivedBuffers) (ls : List ReceivedLabel)
    (hreach : Lts.Reach ReceivedBuffers.step Lts.Any .initial s) (hending : s.Ending)
    (hrun : Lts.run ReceivedBuffers.step ls s = some t)
    (hstop : ∀ l ∈ ls, l.readsStop = true) :
    ls.length + t.stepsLeft ≤ s.stepsLeft ∧
      (t.stage ≠ .returned → ∃ l : ReceivedLabel, l.readsStop = true ∧ (t.step l).isSome) ∧
      (t.stage = .returned → (∀ thread ∈ t.threads, thread.call = .returned) ∧ t.queue = []) := by
  have hok := ReceivedBuffers.ok_of_reach hreach
  have hstep : ∀ u : ReceivedBuffers, ∀ l ∈ ls, ∀ v : ReceivedBuffers, u.Ok ∧ u.Ending →
      u.step l = some v → v.Ok ∧ v.Ending := fun u l hl v hu hstep => ⟨ReceivedBuffers.ok_step hu.1 hstep,
      (ReceivedBuffers.stepsLeft_step hu.1 hu.2 (hstop l hl) hstep).1⟩
  obtain ⟨hok', hending'⟩ :=
    Lts.run_invariant (I := fun u : ReceivedBuffers => u.Ok ∧ u.Ending) hrun ⟨hok, hending⟩ hstep
  refine ⟨?_, ReceivedBuffers.exists_step hending', fun hreturned =>
    ⟨hok'.stage.joined (.inr hreturned), hok'.stage.emptied hreturned⟩⟩
  have hvariant := Lts.countP_add_rank_le (P := fun _ => True) (fun _ => true)
    ReceivedBuffers.stepsLeft hstep (fun _ _ _ _ _ => trivial)
    (fun u l hl v hu _ hstep => (ReceivedBuffers.stepsLeft_step hu.1 hu.2 (hstop l hl) hstep).2) hrun
    ⟨hok, hending⟩ trivial
  simpa using hvariant

/-- Client 0 has sent half a message, and the thread of client 1 is about to announce it. -/
def stopEarly : List ReceivedLabel :=
  [.addClient true [2, 0, 0, 0, 7], .addClient true [], .receiver 0 .pushed, .receiver 0 (.status true),
    .receiver 0 (.poll .readable), .receiver 0 (.recvSize true), .stopServer, .joinListener]

/-- What is left to be done. -/
def returnAll : List ReceivedLabel :=
  [.receiver 1 .pushed, .receiver 0 (.malloc 40), .receiver 0 (.recvData true fun _ => 0),
    .receiver 1 (.status false), .receiver 0 .pushed, .receiver 1 .pushed, .receiver 1 .closed,
    .receiver 0 .closed, .stopReceivingThreads, .dispose, .dispose, .dispose, .dispose,
    .queueSyncDestroy]

theorem stopServer_returns_stopEarly : ∃ s t, Lts.run ReceivedBuffers.step stopEarly .initial = some s ∧
    s.stepsLeft = 17 ∧ Lts.run ReceivedBuffers.step returnAll s = some t ∧
    returnAll.length + t.stepsLeft ≤ 17 ∧ t.queue = [] := by
  obtain ⟨s, t, hrun, hstage, hleft, hreturn, hreturned⟩ : ∃ s t,
      Lts.run ReceivedBuffers.step stopEarly .initial = some s ∧ s.stage = .listenerJoined ∧
      s.stepsLeft = 17 ∧ Lts.run ReceivedBuffers.step returnAll s = some t ∧ t.stage = .returned :=
    ⟨_, _, rfl, rfl, rfl, rfl, rfl⟩
  obtain ⟨hsteps, -, hends⟩ := stopServer_returns s t returnAll (.of_run hrun)
    (by simp [ReceivedBuffers.Ending, hstage]) hreturn (by decide)
  exact ⟨s, t, hrun, hleft, hreturn, hleft ▸ hsteps, (hends hreturned).2⟩

end PRShooter
