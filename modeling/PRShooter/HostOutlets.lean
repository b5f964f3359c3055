import PRShooter.HostThreads

/-!
# The buffers and the calls of the host

What one step of the host does to the messages it has created and to the server, as one case for each
kind of step (`HostThreads.Outlet`). So the buffers that are held or handed over are all that were
created, each once, and the main thread has joined every thread that calls the server before it
calls `stopServer`.
-/

set_option linter.unusedSectionVars false

namespace PRShooter

variable {D F : Type} [Zero D] [One D] [Zero F] [NatCast D] [IntCast D] [OfScientific D] [Add D]
  [Sub D] [Mul D] [Div D] [Neg D] [LT D] [LE D] [DecidableLT D] [DecidableLE D] [HasSqrt D]

/-! ## Stages -/

/-- How far the main thread is. -/
def MainPoint.stage : MainPoint → ℕ
  | .sleeping => 0
  | .storeStop => 1
  | .joinReceive => 2
  | .joinSend => 3
  | .joinUpdate => 4
  | .setStop => 5
  | .stopReceivingThreads => 6
  | .finished => 7

/-- The message that has been created and not yet handed over. -/
def SendPoint.held : SendPoint D → List (OutgoingMessage D)
  | .unlock gameState | .sendMessageToEveryone gameState => [gameState]
  | _ => []

def ReceivePoint.held : ReceivePoint D → List (OutgoingMessage D)
  | .unlockMap map _ | .sendMap map _ => [map]
  | _ => []

/-- The message of a call. -/
def HostCall.message : HostCall D → Option (OutgoingMessage D)
  | .sendTo message _ | .sendToEveryone message => some message
  | _ => none

/-! ## What a step does -/

namespace HostThreads

variable {h h' : HostThreads D F}

def held (h : HostThreads D F) : List (OutgoingMessage D) := h.send.held ++ h.receive.held

/-- The messages handed to the server. -/
def handed (h : HostThreads D F) : List (OutgoingMessage D) := h.calls.filterMap HostCall.message

/-- What a step does to the messages that are held, and which call it is. -/
inductive Outlet (h h' : HostThreads D F) : Prop
  | silent (hmain : h'.main = h.main ∨ h.main.stage < 6 ∧ h'.main.stage < 6)
      (hcalls : h'.calls = h.calls) (hcreated : h'.created = h.created) (hheld : h'.held = h.held)
  | create (content : Outgoing D) (hmain : h'.main = h.main) (hcalls : h'.calls = h.calls)
      (hcreated : h'.created = h.created + 1) (hheld : h'.held.Perm (h.newMessage content :: h.held))
  | sendNew (content : Outgoing D) (clientId : ℕ) (hcalling : h.receive ≠ .finished)
      (hmain : h'.main = h.main)
      (hcalls : h'.calls = h.calls ++ [.sendTo (h.newMessage content) clientId])
      (hcreated : h'.created = h.created + 1) (hheld : h'.held = h.held)
  | sendTo (message : OutgoingMessage D) (clientId : ℕ) (hcalling : h.receive ≠ .finished)
      (hmain : h'.main = h.main) (hcalls : h'.calls = h.calls ++ [.sendTo message clientId])
      (hcreated : h'.created = h.created) (hheld : h.held.Perm (message :: h'.held))
  | sendToEveryone (message : OutgoingMessage D) (hcalling : h.send ≠ .finished)
      (hmain : h'.main = h.main) (hcalls : h'.calls = h.calls ++ [.sendToEveryone message])
      (hcreated : h'.created = h.created) (hheld : h.held.Perm (message :: h'.held))
  | setStop (hmain : h'.main = .stopReceivingThreads) (hcalls : h'.calls = h.calls ++ [.setStop])
      (hcreated : h'.created = h.created) (hheld : h'.held = h.held)
  | stopReceivingThreads (hmain : h.main = .stopReceivingThreads ∧ h'.main = .finished)
      (hcalls : h'.calls = h.calls ++ [.stopReceivingThreads]) (hcreated : h'.created = h.created)
      (hheld : h'.held = h.held)

theorem outlet_main (hstep : h.mainStep = some h') : h.Outlet h' := by
  unfold mainStep at hstep
  split at hstep <;> rename_i hs
  case h_1 =>
    refine Option.some.inj hstep ▸ .silent (.inr ⟨by rw [hs]; decide, ?_⟩) rfl rfl rfl
    show MainPoint.stage (if _ then _ else _) < 6
    split_ifs <;> decide
  case h_2 =>
    exact Option.some.inj hstep ▸
      .silent (.inr ⟨by rw [hs]; decide, by simp [MainPoint.stage]⟩) rfl rfl rfl
  case h_3 | h_4 | h_5 =>
    split at hstep <;> cases hstep
    exact .silent (.inr ⟨by rw [hs]; decide, by simp [MainPoint.stage]⟩) rfl rfl rfl
  case h_6 => exact Option.some.inj hstep ▸ .setStop rfl rfl rfl rfl
  case h_7 => exact Option.some.inj hstep ▸ .stopReceivingThreads ⟨hs, rfl⟩ rfl rfl rfl
  case h_8 => cases hstep

theorem outlet_update {now later : ℤ} {ρ : Rehash ℕ} (hstep : h.updateStep now later ρ = some h') :
    h.Outlet h' := by
  unfold updateStep at hstep
  split at hstep
  case h_4 =>
    obtain ⟨game, -, rfl⟩ := Option.map_eq_some_iff.mp hstep
    exact .silent (.inl rfl) rfl rfl rfl
  case h_5 => cases hstep
  all_goals
    split_ifs at hstep
    all_goals exact Option.some.inj hstep ▸ .silent (.inl rfl) rfl rfl rfl

theorem outlet_send [ToWord 64 D] [ToWord 32 F] (hstep : h.sendStep = some h') : h.Outlet h' := by
  unfold sendStep at hstep
  split at hstep
  case h_1 hs =>
    refine Option.some.inj hstep ▸ .silent (.inl rfl) rfl rfl ?_
    show SendPoint.held (if _ then _ else _) ++ _ = _
    split_ifs <;> simp only [held, hs, SendPoint.held]
  case h_2 hs =>
    split_ifs at hstep
    refine Option.some.inj hstep ▸ .silent (.inl rfl) rfl rfl ?_
    simp only [held, hs, SendPoint.held]
  case h_3 hs =>
    refine Option.some.inj hstep ▸ .create (.gameState (serializeGameState h.game)) rfl rfl rfl ?_
    simp [held, hs, SendPoint.held]
  case h_4 hs =>
    refine Option.some.inj hstep ▸ .silent (.inl rfl) rfl rfl ?_
    simp only [held, hs, SendPoint.held]
  case h_5 gameState hs =>
    refine Option.some.inj hstep ▸ .sendToEveryone gameState (by rw [hs]; nofun) rfl rfl rfl ?_
    simp [held, hs, SendPoint.held]
  case h_6 => cases hstep

variable [Trig F D] [ToInt D] [OfWord 64 D] [OfWord 32 F]

theorem outlet_receive {m : IncomingMessage} {ρ : Rehash ℕ} {draw : ℤ × ℤ}
    (hstep : h.receiveStep m ρ draw = some h') : h.Outlet h' := by
  have hquiet : ∀ (game : Game D F) (updateMutex : Option GameThread) (taken : List IncomingMessage)
      (receive : ReceivePoint D), receive.held = h.receive.held →
      h.Outlet { h with game, updateMutex, taken, receive } := fun game updateMutex taken receive hr =>
    .silent (.inl rfl) rfl rfl (by simp only [held, hr])
  unfold receiveStep at hstep
  split at hstep <;> rename_i hs <;> try rw [hs] at hquiet
  case h_1 =>
    refine Option.some.inj hstep ▸ hquiet _ _ _ _ ?_
    split_ifs <;> rfl
  case h_2 | h_3 =>
    split_ifs at hstep <;> exact Option.some.inj hstep ▸ hquiet _ _ _ _ rfl
  case h_4 m =>
    unfold switchStep at hstep
    split at hstep
    case h_4 =>
      split at hstep
      · exact Option.some.inj hstep ▸ hquiet _ _ _ _ rfl
      · split_ifs at hstep
        exact Option.some.inj hstep ▸ hquiet _ _ _ _ rfl
    all_goals exact Option.some.inj hstep ▸ hquiet _ _ _ _ rfl
  case h_5 clientId =>
    refine Option.some.inj hstep ▸
      .sendNew (.welcome clientId) clientId (by rw [hs]; nofun) rfl rfl rfl ?_
    simp [held, hs, ReceivePoint.held]
  case h_6 clientId =>
    refine Option.some.inj hstep ▸ .create (.map h.game.gameMap) rfl rfl rfl ?_
    simp [held, hs, ReceivePoint.held]
  case h_7 | h_10 => exact Option.some.inj hstep ▸ hquiet _ _ _ _ rfl
  case h_8 map clientId =>
    refine Option.some.inj hstep ▸ .sendTo map clientId (by rw [hs]; nofun) rfl rfl rfl ?_
    simp [held, hs, ReceivePoint.held]
  case h_9 id clientId =>
    refine Option.some.inj hstep ▸
      .sendNew (.pingReply id) clientId (by rw [hs]; nofun) rfl rfl rfl ?_
    simp [held, hs, ReceivePoint.held]
  case h_11 => cases hstep

theorem outlet_of_step [ToWord 64 D] [ToWord 32 F] {l : HostLabel} (hstep : h.step l = some h') :
    h.Outlet h' := by
  cases l with
  | interrupt => exact Option.some.inj hstep ▸ .silent (.inl rfl) rfl rfl rfl
  | main => exact outlet_main hstep
  | update now later ρ => exact outlet_update hstep
  | send => exact outlet_send hstep
  | receive m ρ draw => exact outlet_receive hstep

/-! ## Every buffer has its own number -/

/-- The buffers that are held or have been handed over are all that were created. -/
def Numbered (h : HostThreads D F) : Prop :=
  ((h.handed ++ h.held).map OutgoingMessage.data).Perm (List.range h.created)

theorem Numbered.keep (hnum : h.Numbered) (hcreated : h'.created = h.created)
    (hmessages : (h'.handed ++ h'.held).Perm (h.handed ++ h.held)) : h'.Numbered := by
  unfold Numbered
  rw [hcreated]
  exact (hmessages.map _).trans hnum

theorem Numbered.create (hnum : h.Numbered) (content : Outgoing D)
    (hcreated : h'.created = h.created + 1)
    (hmessages : (h'.handed ++ h'.held).Perm (h.newMessage content :: (h.handed ++ h.held))) :
    h'.Numbered := by
  unfold Numbered
  rw [hcreated, List.range_succ]
  calc ((h'.handed ++ h'.held).map OutgoingMessage.data).Perm
        ((h.newMessage content :: (h.handed ++ h.held)).map OutgoingMessage.data) :=
      hmessages.map _
    _ |>.Perm (h.created :: List.range h.created) := hnum.cons _
    _ |>.Perm (List.range h.created ++ [h.created]) := (List.perm_append_singleton _ _).symm

theorem Numbered.outlet (hnum : h.Numbered) (hout : h.Outlet h') : h'.Numbered := by
  cases hout with
  | silent _ hcalls hcreated hheld =>
    exact hnum.keep hcreated (by rw [handed, hcalls, hheld, handed])
  | setStop _ hcalls hcreated hheld | stopReceivingThreads _ hcalls hcreated hheld =>
    refine hnum.keep hcreated (.of_eq ?_)
    simp only [handed, hcalls, hheld, List.filterMap_append]
    simp [HostCall.message]
  | create content _ hcalls hcreated hheld =>
    refine hnum.create content hcreated ?_
    rw [handed, hcalls]
    exact (hheld.append_left _).trans List.perm_middle
  | sendNew content clientId _ _ hcalls hcreated hheld =>
    refine hnum.create content hcreated ?_
    simp only [handed, hcalls, hheld, List.filterMap_append]
    simp [HostCall.message]
  | sendTo message clientId _ _ hcalls hcreated hheld =>
    refine hnum.keep hcreated ?_
    simp only [handed, hcalls, List.filterMap_append, List.append_assoc]
    exact hheld.symm.append_left h.handed
  | sendToEveryone message _ _ hcalls hcreated hheld =>
    refine hnum.keep hcreated ?_
    simp only [handed, hcalls, List.filterMap_append, List.append_assoc]
    exact hheld.symm.append_left h.handed

/-! ## The other threads -/

/-- A step of `updateThread` leaves the other threads where they are. -/
theorem frame_update {now later : ℤ} {ρ : Rehash ℕ} (hstep : h.updateStep now later ρ = some h') :
    h.update ≠ .finished ∧ h'.main = h.main ∧ h'.stop = h.stop ∧ h'.receive = h.receive ∧
      h'.send = h.send := by
  unfold updateStep at hstep
  split at hstep <;> rename_i hs
  case h_4 =>
    obtain ⟨game, -, rfl⟩ := Option.map_eq_some_iff.mp hstep
    exact ⟨by rw [hs]; nofun, rfl, rfl, rfl, rfl⟩
  case h_5 => cases hstep
  all_goals
    split_ifs at hstep
    all_goals exact Option.some.inj hstep ▸ ⟨by rw [hs]; nofun, rfl, rfl, rfl, rfl⟩

theorem frame_send [ToWord 64 D] [ToWord 32 F] (hstep : h.sendStep = some h') :
    h.send ≠ .finished ∧ h'.main = h.main ∧ h'.stop = h.stop ∧ h'.receive = h.receive ∧
      h'.update = h.update := by
  unfold sendStep at hstep
  split at hstep <;> rename_i hs
  case h_2 =>
    split_ifs at hstep
    exact Option.some.inj hstep ▸ ⟨by rw [hs]; nofun, rfl, rfl, rfl, rfl⟩
  case h_6 => cases hstep
  all_goals exact Option.some.inj hstep ▸ ⟨by rw [hs]; nofun, rfl, rfl, rfl, rfl⟩

theorem frame_receive {m : IncomingMessage} {ρ : Rehash ℕ} {draw : ℤ × ℤ}
    (hstep : h.receiveStep m ρ draw = some h') :
    h.receive ≠ .finished ∧ h'.main = h.main ∧ h'.stop = h.stop ∧ h'.send = h.send ∧
      h'.update = h.update := by
  unfold receiveStep switchStep at hstep
  split at hstep <;> rename_i hs
  case h_2 | h_3 =>
    split_ifs at hstep
    all_goals exact Option.some.inj hstep ▸ ⟨by rw [hs]; nofun, rfl, rfl, rfl, rfl⟩
  case h_4 =>
    split at hstep
    case h_4 =>
      split at hstep
      · exact Option.some.inj hstep ▸ ⟨by rw [hs]; nofun, rfl, rfl, rfl, rfl⟩
      · split_ifs at hstep
        exact Option.some.inj hstep ▸ ⟨by rw [hs]; nofun, rfl, rfl, rfl, rfl⟩
    all_goals exact Option.some.inj hstep ▸ ⟨by rw [hs]; nofun, rfl, rfl, rfl, rfl⟩
  case h_11 => cases hstep
  all_goals exact Option.some.inj hstep ▸ ⟨by rw [hs]; nofun, rfl, rfl, rfl, rfl⟩

/-! ## The joins -/

/-- The threads that the main thread has joined have returned. -/
structure Joined (h : HostThreads D F) : Prop where
  receive : 3 ≤ h.main.stage → h.receive = .finished
  send : 4 ≤ h.main.stage → h.send = .finished
  update : 5 ≤ h.main.stage → h.update = .finished

theorem joined_main (hjoined : h.Joined) (hstep : h.mainStep = some h') : h'.Joined := by
  obtain ⟨hreceive, hsend, hupdate⟩ := hjoined
  unfold mainStep at hstep
  split at hstep <;> rename_i hmain <;> rw [hmain] at hreceive hsend hupdate
  case h_1 =>
    obtain rfl := Option.some.inj hstep
    by_cases hsignal : h.stopSignal = true <;> constructor <;> simp [hsignal, MainPoint.stage]
  case h_2 =>
    obtain rfl := Option.some.inj hstep
    constructor <;> simp [MainPoint.stage]
  case h_3 =>
    split at hstep <;> cases hstep
    rename_i hfinished
    constructor <;> simp [MainPoint.stage, hfinished]
  case h_4 =>
    split at hstep <;> cases hstep
    rename_i hfinished
    exact ⟨fun _ => hreceive (by decide), fun _ => hfinished, by simp [MainPoint.stage]⟩
  case h_5 =>
    split at hstep <;> cases hstep
    rename_i hfinished
    exact ⟨fun _ => hreceive (by decide), fun _ => hsend (by decide), fun _ => hfinished⟩
  case h_6 | h_7 =>
    obtain rfl := Option.some.inj hstep
    exact ⟨fun _ => hreceive (by decide), fun _ => hsend (by decide), fun _ => hupdate (by decide)⟩
  case h_8 => cases hstep

/-- A thread that moves has not been joined. -/
theorem joined_step [ToWord 64 D] [ToWord 32 F] {l : HostLabel} (hjoined : h.Joined)
    (hstep : h.step l = some h') : h'.Joined := by
  obtain ⟨hreceive, hsend, hupdate⟩ := hjoined
  cases l with
  | interrupt => exact Option.some.inj hstep ▸ ⟨hreceive, hsend, hupdate⟩
  | main => exact joined_main ⟨hreceive, hsend, hupdate⟩ hstep
  | update now later ρ =>
    obtain ⟨hmoves, hmain, -, hreceive', hsend'⟩ := frame_update hstep
    exact ⟨by rwa [hmain, hreceive'], by rwa [hmain, hsend'],
      fun hle => absurd (hupdate (hmain ▸ hle)) hmoves⟩
  | send =>
    obtain ⟨hmoves, hmain, -, hreceive', hupdate'⟩ := frame_send hstep
    exact ⟨by rwa [hmain, hreceive'], fun hle => absurd (hsend (hmain ▸ hle)) hmoves,
      by rwa [hmain, hupdate']⟩
  | receive m ρ draw =>
    obtain ⟨hmoves, hmain, -, hsend', hupdate'⟩ := frame_receive hstep
    exact ⟨fun hle => absurd (hreceive (hmain ▸ hle)) hmoves, by rwa [hmain, hsend'],
      by rwa [hmain, hupdate']⟩

end HostThreads

end PRShooter
