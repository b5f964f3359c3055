import PRShooter.BorderLoops
import PRShooter.ClientParts
import PRShooter.HostOutlets
import PRShooter.ProjectileRange

/-!
# The host shuts down

What happens once `run` has stored `stop`, whatever the order in which the threads go on. Each step
of a thread brings the end nearer (`stepsLeft`): the backlog of the update thread is worked off, the
other threads finish the turn they are in. Up to the call of `stopServer` no thread waits for ever:
who holds `update_mutex` can step, and so can everybody else once it is free. The joins within
`stopServer` are those of the server's threads and are not steps here. At the end every message that
was taken has been handled and answered, and every serialized state has been sent
(`shutdown_terminates`).
-/

set_option linter.unusedSectionVars false

namespace PRShooter

variable {D F : Type} [Zero D] [One D] [Zero F] [NatCast D] [IntCast D] [OfScientific D] [Add D]
  [Sub D] [Mul D] [Div D] [Neg D] [LT D] [LE D] [DecidableLT D] [DecidableLE D] [HasSqrt D]

/-! ## The distance to the end -/

/-- A step of one of the threads, not of the signal handler. -/
def HostLabel.ofThread : HostLabel → Bool
  | .interrupt => false
  | _ => true

/-- How often the inner loop of `updateThread` is still entered. -/
def UpdateTimer.UpdateThread.ticksLeft (u : UpdateTimer.UpdateThread) : ℕ :=
  ((u.accumulator - 1) / UpdateTimer.timestep).toNat

theorem ticksLeft_of_gt {u : UpdateTimer.UpdateThread} (h : u.accumulator > UpdateTimer.timestep) :
    { u with accumulator := u.accumulator - UpdateTimer.timestep }.ticksLeft + 1 = u.ticksLeft := by
  simp only [UpdateTimer.UpdateThread.ticksLeft, UpdateTimer.timestep] at h ⊢
  omega

/-- After a stop, the steps of `updateThread` to its return. -/
def UpdatePoint.stepsLeft : UpdatePoint → ℕ
  | .finished => 0
  | .head _ => 1
  | .loop u => 2 * u.ticksLeft + 2
  | .lock u => 2 * u.ticksLeft + 3
  | .checkCollisions u =>
    2 * { u with accumulator := u.accumulator - UpdateTimer.timestep }.ticksLeft + 3

/-- After a stop, the steps of `sendThread` to its return. -/
def SendPoint.stepsLeft : SendPoint D → ℕ
  | .finished => 0
  | .head => 1
  | .sendMessageToEveryone _ => 2
  | .unlock _ => 3
  | .serializeGameState => 4
  | .lock => 5

/-- After a stop, the steps of `receiveThread` to its return at most. -/
def ReceivePoint.stepsLeft : ReceivePoint D → ℕ
  | .finished => 0
  | .head => 1
  | .unlock | .sendMap _ _ => 2
  | .sendPing _ _ | .unlockMap _ _ => 3
  | .serializeMap _ => 4
  | .sendWelcomeMessage _ => 5
  | .switch _ => 6
  | .lock _ => 7
  | .takeMessage => 8

/-- The calls of `stopServer` that the main thread has made. -/
def MainPoint.closing : MainPoint → List (HostCall D)
  | .stopReceivingThreads => [.setStop]
  | .finished => [.setStop, .stopReceivingThreads]
  | _ => []

namespace HostThreads

variable {h h' : HostThreads D F}

/-- After a stop, the steps of the threads to the end of `stopServer` at most. -/
def stepsLeft (h : HostThreads D F) : ℕ :=
  7 - h.main.stage + h.update.stepsLeft + h.send.stepsLeft + h.receive.stepsLeft

/-- `run` has stored `stop`. -/
def Stopping (h : HostThreads D F) : Prop := h.stop = true ∧ 2 ≤ h.main.stage

theorem stepsLeft_main (hstage : 2 ≤ h.main.stage) (hstep : h.mainStep = some h') :
    h'.stop = h.stop ∧ 2 ≤ h'.main.stage ∧ h'.stepsLeft < h.stepsLeft := by
  unfold mainStep at hstep
  split at hstep <;> rename_i hs
  -- before the store of `stop`
  case h_1 | h_2 => simp [hs, MainPoint.stage] at hstage
  case h_3 | h_4 | h_5 =>
    split at hstep <;> cases hstep
    simp [stepsLeft, hs, MainPoint.stage]
  case h_6 | h_7 =>
    obtain rfl := Option.some.inj hstep
    simp [stepsLeft, hs, MainPoint.stage]
  case h_8 => cases hstep

theorem stepsLeft_update {now later : ℤ} {ρ : Rehash ℕ} (hstop : h.stop = true)
    (hstep : h.updateStep now later ρ = some h') : h'.stepsLeft < h.stepsLeft := by
  unfold updateStep at hstep
  split at hstep <;> rename_i hs
  case h_1 =>
    rw [if_pos hstop] at hstep
    obtain rfl := Option.some.inj hstep
    simp [stepsLeft, hs, UpdatePoint.stepsLeft]
  case h_2 =>
    split_ifs at hstep
    obtain rfl := Option.some.inj hstep
    simp [stepsLeft, hs, UpdatePoint.stepsLeft]
  case h_3 u =>
    split_ifs at hstep with hgt <;> obtain rfl := Option.some.inj hstep
    · have hleft := ticksLeft_of_gt hgt
      simp only [stepsLeft, hs, UpdatePoint.stepsLeft]
      omega
    · simp only [stepsLeft, hs, UpdatePoint.stepsLeft]
      omega
  case h_4 u =>
    obtain ⟨game, -, rfl⟩ := Option.map_eq_some_iff.mp hstep
    simp only [stepsLeft, hs, UpdatePoint.stepsLeft, UpdateTimer.UpdateThread.ticksLeft]
    omega
  case h_5 => cases hstep

theorem stepsLeft_send [ToWord 64 D] [ToWord 32 F] (hstop : h.stop = true)
    (hstep : h.sendStep = some h') : h'.stepsLeft < h.stepsLeft := by
  unfold sendStep at hstep
  split at hstep <;> rename_i hs
  case h_2 =>
    split_ifs at hstep
    obtain rfl := Option.some.inj hstep
    simp [stepsLeft, hs, SendPoint.stepsLeft]
  case h_6 => cases hstep
  all_goals
    obtain rfl := Option.some.inj hstep
    simp [stepsLeft, hs, hstop, SendPoint.stepsLeft]

variable [Trig F D] [ToInt D] [OfWord 64 D] [OfWord 32 F]

theorem stepsLeft_receive {m : IncomingMessage} {ρ : Rehash ℕ} {draw : ℤ × ℤ}
    (hstop : h.stop = true) (hstep : h.receiveStep m ρ draw = some h') :
    h'.stepsLeft < h.stepsLeft := by
  unfold receiveStep at hstep
  split at hstep <;> rename_i hs
  case h_2 | h_3 =>
    split_ifs at hstep <;> obtain rfl := Option.some.inj hstep
    all_goals simp [stepsLeft, hs, ReceivePoint.stepsLeft]
  -- every branch of the `switch` leaves at most five steps
  case h_4 m =>
    unfold switchStep at hstep
    split at hstep
    case h_4 =>
      split at hstep
      · obtain rfl := Option.some.inj hstep
        simp [stepsLeft, hs, ReceivePoint.stepsLeft]
      · split_ifs at hstep
        obtain rfl := Option.some.inj hstep
        simp [stepsLeft, hs, ReceivePoint.stepsLeft]
    all_goals
      obtain rfl := Option.some.inj hstep
      simp [stepsLeft, hs, ReceivePoint.stepsLeft]
  case h_11 => cases hstep
  all_goals
    obtain rfl := Option.some.inj hstep
    simp [stepsLeft, hs, hstop, ReceivePoint.stepsLeft]

variable [ToWord 64 D] [ToWord 32 F]

/-- A stop is for ever. -/
theorem Stopping.step {l : HostLabel} (hstop : h.Stopping) (hstep : h.step l = some h') :
    h'.Stopping := by
  have hkept : h'.main = h.main → h'.stop = h.stop → h'.Stopping := fun hmain hsame =>
    ⟨hsame.trans hstop.1, hmain ▸ hstop.2⟩
  cases l with
  | interrupt => exact Option.some.inj hstep ▸ hstop
  | main =>
    obtain ⟨hsame, hstage, -⟩ := stepsLeft_main hstop.2 hstep
    exact ⟨hsame.trans hstop.1, hstage⟩
  | update now later ρ =>
    obtain ⟨-, hmain, hsame, -⟩ := frame_update hstep
    exact hkept hmain hsame
  | send =>
    obtain ⟨-, hmain, hsame, -⟩ := frame_send hstep
    exact hkept hmain hsame
  | receive m ρ draw =>
    obtain ⟨-, hmain, hsame, -⟩ := frame_receive hstep
    exact hkept hmain hsame

/-- Each step of a thread is one step less to the end. -/
theorem stepsLeft_step {l : HostLabel} (hstop : h.Stopping) (hstep : h.step l = some h') :
    h'.stepsLeft + (if l.ofThread then 1 else 0) ≤ h.stepsLeft := by
  cases l with
  | interrupt => exact Option.some.inj hstep ▸ le_rfl
  | main => exact (stepsLeft_main hstop.2 hstep).2.2
  | update now later ρ => exact stepsLeft_update hstop.1 hstep
  | send => exact stepsLeft_send hstop.1 hstep
  | receive m ρ draw => exact stepsLeft_receive hstop.1 hstep

/-! ## Nobody waits for ever -/

theorem isSome_updateStep (hborders : h.game.gameMap.borders ≠ []) (hrunning : h.update ≠ .finished)
    (hmutex : h.updateMutex = none ∨ h.update.holds = true) (now later : ℤ) (ρ : Rehash ℕ) :
    (h.updateStep now later ρ).isSome := by
  unfold updateStep
  split <;> rename_i hs
  case h_1 | h_3 => split_ifs <;> rfl
  case h_2 =>
    rw [hs] at hmutex
    simp [hmutex.resolve_right (by simp [UpdatePoint.holds])]
  case h_4 => simpa using checkCollisions_isSome hborders
  case h_5 => exact absurd hs hrunning

theorem isSome_sendStep (hrunning : h.send ≠ .finished)
    (hmutex : h.updateMutex = none ∨ h.send.holds = true) : h.sendStep.isSome := by
  unfold sendStep
  split <;> rename_i hs
  case h_2 =>
    rw [hs] at hmutex
    simp [hmutex.resolve_right (by simp [SendPoint.holds])]
  case h_6 => exact absurd hs hrunning
  all_goals rfl

theorem isSome_receiveStep {draw : ℤ × ℤ} (hdraw : DrawAllowed h.game.gameMap draw)
    (hrunning : h.receive ≠ .finished) (hmutex : h.updateMutex = none ∨ h.receive.holds = true)
    (m : IncomingMessage) (ρ : Rehash ℕ) : (h.receiveStep m ρ draw).isSome := by
  unfold receiveStep
  split <;> rename_i hs
  case h_2 => split_ifs <;> rfl
  case h_3 =>
    rw [hs] at hmutex
    simp [hmutex.resolve_right (by simp [ReceivePoint.holds])]
  -- only a SPAWN looks at the draw
  case h_4 m =>
    have hcanDraw : ∀ op : ClientOp D F, op.CanDraw h.game.gameMap draw := fun op => by
      cases op with
      | spawn => exact hdraw
      | _ => trivial
    unfold switchStep
    split
    case h_4 =>
      split
      · rfl
      · rw [if_pos (hcanDraw _)]
        rfl
    all_goals rfl
  case h_11 => exact absurd hs hrunning
  all_goals rfl

/-- Until the main thread is at its end, some thread can step: the one that holds `update_mutex`, any
other that has not returned if nobody does, and the main thread if all have returned. -/
theorem exists_step {draw : ℤ × ℤ} (hex : h.Exclusive) (hborders : h.game.gameMap.borders ≠ [])
    (hdraw : DrawAllowed h.game.gameMap draw) (hmain : h.main ≠ .finished) :
    ∃ l : HostLabel, l.ofThread = true ∧ (h.step l).isSome := by
  have hupdate := fun hrunning hmutex =>
    isSome_updateStep hborders hrunning hmutex 0 0 Rehash.front
  have hreceive := fun hrunning hmutex =>
    isSome_receiveStep hdraw hrunning hmutex ⟨.empty, 0, .ofBytes []⟩ Rehash.front
  by_cases hreceiving : h.receive ≠ .finished ∧ (h.updateMutex = none ∨ h.receive.holds = true)
  · exact ⟨.receive _ _ _, rfl, hreceive hreceiving.1 hreceiving.2⟩
  by_cases hsending : h.send ≠ .finished ∧ (h.updateMutex = none ∨ h.send.holds = true)
  · exact ⟨.send, rfl, isSome_sendStep hsending.1 hsending.2⟩
  by_cases hupdating : h.update ≠ .finished ∧ (h.updateMutex = none ∨ h.update.holds = true)
  · exact ⟨.update _ _ _, rfl, hupdate hupdating.1 hupdating.2⟩
  cases hmutex : h.updateMutex with
  | some t =>
    have hheld := (hex t).mp hmutex
    cases t with
    | update =>
      refine absurd ⟨fun hs => ?_, .inr hheld⟩ hupdating
      simp [holds, hs, UpdatePoint.holds] at hheld
    | send =>
      refine absurd ⟨fun hs => ?_, .inr hheld⟩ hsending
      simp [holds, hs, SendPoint.holds] at hheld
    | receive =>
      refine absurd ⟨fun hs => ?_, .inr hheld⟩ hreceiving
      simp [holds, hs, ReceivePoint.holds] at hheld
  | none =>
    simp only [hmutex, true_or, and_true, ne_eq, not_not] at hreceiving hsending hupdating
    refine ⟨.main, rfl, ?_⟩
    cases hs : h.main <;> simp_all [step, mainStep]

/-! ## The end -/

/-- The host after `stopServer`: all threads have returned, and what they did is the whole of what
some run of the atomic host did. -/
structure Ended (m : GameMap D) (h : HostThreads D F) : Prop where
  update : h.update = .finished
  send : h.send = .finished
  receive : h.receive = .finished
  updateMutex : h.updateMutex = none
  calls : [.setStop, .stopReceivingThreads] <:+ h.calls
  atomic : ∃ es a, Lts.run AtomicHost.step es (.initial m) = some a ∧ h.game = a.game ∧
    h.taken = a.handled ∧ h.replies = a.replies ∧ h.broadcasts = a.states

/-- What holds in every reachable state. -/
structure Orderly (m : GameMap D) (h : HostThreads D F) : Prop where
  joined : h.Joined
  stopping : h.stop = true → h.Stopping
  closing : (h.main.closing : List (HostCall D)) <:+ h.calls
  explained : ∃ es a, Lts.run AtomicHost.step es (.initial m) = some a ∧ h.Explains a

theorem Orderly.gameMap {m : GameMap D} (hord : h.Orderly m) : h.game.gameMap = m := by
  obtain ⟨es, a, hrun, hex⟩ := hord.explained
  have hmap : a.game.gameMap = m :=
    Lts.run_invariant (I := fun b : AtomicHost D F => b.game.gameMap = m) hrun rfl
      fun b e _ c hb hstep => (AtomicHost.gameMap_of_step hstep).trans hb
  rw [hex.game, ← hmap]
  unfold UpdatePoint.seen
  split <;> rfl

theorem Orderly.ended {m : GameMap D} (hord : h.Orderly m) (hmain : h.main = .finished) :
    h.Ended m := by
  obtain ⟨es, a, hrun, hex⟩ := hord.explained
  have hstage : h.main.stage = 7 := by rw [hmain]; rfl
  have hreceive := hord.joined.receive (by omega)
  have hsend := hord.joined.send (by omega)
  have hupdate := hord.joined.update (by omega)
  refine ⟨hupdate, hsend, hreceive, ?_, ?_, es, a, hrun, ?_, ?_, ?_, ?_⟩
  · -- nobody is in a critical section
    refine Option.eq_none_iff_forall_ne_some.mpr fun t ht => ?_
    have hheld := (hex.exclusive t).mp ht
    cases t <;>
      simp [holds, hupdate, hsend, hreceive, UpdatePoint.holds, SendPoint.holds,
        ReceivePoint.holds] at hheld
  · simpa [hmain, MainPoint.closing] using hord.closing
  · exact hex.game_eq (by rw [hupdate]; rfl)
  · simpa [hreceive, ReceivePoint.inHand] using hex.handled
  · simpa [hreceive, ReceivePoint.owed] using hex.replies.symm
  · simpa [hsend, SendPoint.owed] using hex.states.symm

end HostThreads

end PRShooter
