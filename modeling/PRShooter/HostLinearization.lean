import PRShooter.ExactReal
import PRShooter.HostThreads

/-!
# The host in any interleaving

The threads of the host do what some run of `AtomicHost` does (`linearized_of_reach`). The game is
changed under `update_mutex` only, so the atomic host can catch up with each step: it ticks at the
end of `checkCollisions`, handles a message at the `switch`, and then owes the replies that the
receive thread is still to send.
-/

set_option linter.unusedSectionVars false

namespace PRShooter

variable {D F : Type} [Zero D] [One D] [Zero F] [NatCast D] [IntCast D] [OfScientific D] [Add D]
  [Sub D] [Mul D] [Div D] [Neg D] [LT D] [LE D] [DecidableLT D] [DecidableLE D] [HasSqrt D]

/-! ## Who holds the mutex -/

namespace HostThreads

/-- The thread is in a critical section of `update_mutex`. -/
def holds (h : HostThreads D F) : GameThread → Bool
  | .update => h.update.holds
  | .send => h.send.holds
  | .receive => h.receive.holds

/-- The mutex is held by the thread that is in its critical section. -/
def Exclusive (h : HostThreads D F) : Prop :=
  ∀ t, h.updateMutex = some t ↔ h.holds t = true

variable {h h' : HostThreads D F} {t : GameThread}

theorem Exclusive.keep (hex : h.Exclusive) (hmutex : h'.updateMutex = h.updateMutex)
    (hholds : h'.holds = h.holds) : h'.Exclusive := by
  intro u
  rw [hmutex, hholds]
  exact hex u

theorem Exclusive.acquire (hex : h.Exclusive) (hfree : h.updateMutex = none)
    (hmutex : h'.updateMutex = some t)
    (hholds : h'.holds = Function.update h.holds t true) : h'.Exclusive := by
  intro u
  rw [hmutex, hholds]
  by_cases hu : u = t
  · simp [hu]
  · have hnot : h.holds u ≠ true := fun hheld => by simpa [hfree] using (hex u).mpr hheld
    simp [hu, hnot, Ne.symm hu]

theorem Exclusive.release (hex : h.Exclusive) (hheld : h.holds t = true)
    (hmutex : h'.updateMutex = none)
    (hholds : h'.holds = Function.update h.holds t false) : h'.Exclusive := by
  intro u
  rw [hmutex, hholds]
  by_cases hu : u = t
  · simp [hu]
  · have hnot : h.holds u ≠ true := fun hother => by
      have hmine := (hex t).mpr hheld
      rw [(hex u).mpr hother] at hmine
      exact hu (Option.some.inj hmine)
    simp [hu, hnot]

end HostThreads

/-! ## What is still to be done -/

/-- The game between `updatePositions` and `checkCollisions` is ahead of the atomic one. -/
def UpdatePoint.seen (u : UpdatePoint) (g : Game D F) : Game D F :=
  match u with
  | .checkCollisions _ => updatePositions g
  | _ => g

/-- The message that has been taken and not yet handled. -/
def ReceivePoint.inHand : ReceivePoint D → List IncomingMessage
  | .lock m | .switch m => [m]
  | _ => []

/-- The replies to the message in the critical section that are still to be sent. -/
def ReceivePoint.owed (gameMap : GameMap D) : ReceivePoint D → List (Outgoing D × ℕ)
  | .sendWelcomeMessage clientId => [(.welcome clientId, clientId), (.map gameMap, clientId)]
  | .serializeMap clientId => [(.map gameMap, clientId)]
  | .unlockMap map clientId | .sendMap map clientId => [(map.content, clientId)]
  | .sendPing id clientId => [(.pingReply id, clientId)]
  | _ => []

/-- The state that has been serialized and not yet sent. -/
def SendPoint.owed : SendPoint D → List (Outgoing D)
  | .unlock gameState | .sendMessageToEveryone gameState => [gameState.content]
  | _ => []

/-- What a call sends to one client. -/
def HostCall.reply : HostCall D → Option (Outgoing D × ℕ)
  | .sendTo message clientId => some (message.content, clientId)
  | _ => none

/-- What a call sends to every client. -/
def HostCall.broadcast : HostCall D → Option (Outgoing D)
  | .sendToEveryone message => some message.content
  | _ => none

namespace HostThreads

/-- What has been sent to single clients. -/
def replies (h : HostThreads D F) : List (Outgoing D × ℕ) := h.calls.filterMap HostCall.reply

/-- What has been sent to everyone. -/
def broadcasts (h : HostThreads D F) : List (Outgoing D) := h.calls.filterMap HostCall.broadcast

/-- The threads have done what the atomic host has, up to the tick and the messages that each
thread is at. -/
structure Explains (h : HostThreads D F) (a : AtomicHost D F) : Prop where
  exclusive : h.Exclusive
  game : h.game = h.update.seen a.game
  handled : h.taken = a.handled ++ h.receive.inHand
  replies : a.replies = h.replies ++ h.receive.owed h.game.gameMap
  states : a.states = h.broadcasts ++ h.send.owed

variable {h h' : HostThreads D F} {a : AtomicHost D F}

theorem seen_eq {u : UpdatePoint} (hfree : u.holds = false) (g : Game D F) : u.seen g = g := by
  cases u
  case checkCollisions => cases hfree
  all_goals rfl

/-- The mutex is held by one thread at a time. -/
theorem Exclusive.update_free (hex : h.Exclusive) {t : GameThread} (ht : t ≠ .update)
    (hheld : h.holds t = true) : h.update.holds = false := by
  refine Bool.eq_false_iff.mpr fun hupdate => ht ?_
  have hmine := (hex t).mpr hheld
  rw [(hex .update).mpr hupdate] at hmine
  exact (Option.some.inj hmine).symm

/-- Outside the critical section of the update thread the game is that of the atomic host. -/
theorem Explains.game_eq (hex : h.Explains a) (hfree : h.update.holds = false) :
    h.game = a.game :=
  hex.game.trans (seen_eq hfree a.game)

theorem gameMap_of_checkCollisions {ρ : Rehash ℕ} {g g' : Game D F}
    (h : checkCollisions ρ g = some g') : g'.gameMap = g.gameMap := by
  obtain ⟨players, -, h⟩ := Option.bind_eq_some_iff.mp h
  obtain ⟨⟨players', projectiles⟩, -, h⟩ := Option.bind_eq_some_iff.mp h
  exact (Option.some.inj h) ▸ rfl

variable [Trig F D] [ToInt D] [OfWord 64 D] [OfWord 32 F] [ToWord 64 D] [ToWord 32 F]

/-! ## Each thread -/

/-- The atomic host can catch up with the threads. -/
def CatchesUp (h : HostThreads D F) (a : AtomicHost D F) : Prop :=
  ∃ es b, Lts.run AtomicHost.step es a = some b ∧ h.Explains b

theorem Explains.catchesUp (hex : h.Explains a) : h.CatchesUp a := ⟨[], a, rfl, hex⟩

theorem Explains.catchesUp_step {b : AtomicHost D F} {e : HostEvent} (hstep : a.step e = some b)
    (hex : h.Explains b) : h.CatchesUp a :=
  ⟨[e], b, by rw [Lts.run_cons, hstep]; rfl, hex⟩

theorem catchesUp_update {now later : ℤ} {ρ : Rehash ℕ} (hex : h.Explains a)
    (hstep : h.updateStep now later ρ = some h') : h'.CatchesUp a := by
  obtain ⟨hexclusive, hgame, hhandled, hreplies, hstates⟩ := hex
  unfold updateStep at hstep
  split at hstep
  case h_1 u hs =>
    rw [hs] at hgame
    split_ifs at hstep <;> obtain rfl := Option.some.inj hstep
    · refine Explains.catchesUp ⟨hexclusive.keep rfl ?_, hgame, hhandled, hreplies, hstates⟩
      funext t
      cases t <;> simp [holds, UpdatePoint.holds, hs]
    · refine Explains.catchesUp ⟨hexclusive.keep rfl ?_, ?_, hhandled, hreplies, hstates⟩
      · funext t
        cases t <;> simp [holds, UpdatePoint.holds, hs]
        split_ifs <;> rfl
      · show h.game = UpdatePoint.seen (if _ then _ else _) a.game
        split_ifs <;> exact hgame
  case h_2 u hs =>
    rw [hs] at hgame
    split_ifs at hstep with hfree
    obtain rfl := Option.some.inj hstep
    refine Explains.catchesUp
      ⟨hexclusive.acquire hfree rfl ?_, hgame, hhandled, hreplies, hstates⟩
    funext t
    cases t <;> simp [holds, UpdatePoint.holds]
  case h_3 u hs =>
    rw [hs] at hgame
    split_ifs at hstep <;> obtain rfl := Option.some.inj hstep
    · refine Explains.catchesUp
        ⟨hexclusive.keep rfl ?_, congrArg updatePositions hgame, hhandled, hreplies, hstates⟩
      funext t
      cases t <;> simp [holds, UpdatePoint.holds, hs]
    · refine Explains.catchesUp
        ⟨hexclusive.release (t := .update) ?_ rfl ?_, hgame, hhandled, hreplies, hstates⟩
      · simp [holds, UpdatePoint.holds, hs]
      · funext t
        cases t <;> simp [holds, UpdatePoint.holds]
  case h_4 u hs =>
    rw [hs] at hgame
    obtain ⟨game, hcheck, rfl⟩ := Option.map_eq_some_iff.mp hstep
    have htick : a.step (.tick ρ) = some { a with game } := by
      rw [hgame] at hcheck
      exact congrArg (Option.map _) hcheck
    refine Explains.catchesUp_step htick ⟨hexclusive.keep rfl ?_, rfl, hhandled, ?_, hstates⟩
    · funext t
      cases t <;> simp [holds, UpdatePoint.holds, hs]
    · show a.replies = _ ++ h.receive.owed game.gameMap
      rw [gameMap_of_checkCollisions hcheck]
      exact hreplies
  case h_5 => cases hstep

theorem catchesUp_send (hex : h.Explains a) (hstep : h.sendStep = some h') : h'.CatchesUp a := by
  have hsame : h.send.holds = true → h.game = a.game := fun hheld =>
    hex.game_eq (hex.exclusive.update_free (t := .send) GameThread.noConfusion hheld)
  obtain ⟨hexclusive, hgame, hhandled, hreplies, hstates⟩ := hex
  unfold sendStep at hstep
  split at hstep
  case h_1 hs =>
    rw [hs] at hstates
    obtain rfl := Option.some.inj hstep
    refine Explains.catchesUp ⟨hexclusive.keep rfl ?_, hgame, hhandled, hreplies, ?_⟩
    · funext t
      cases t <;> simp [holds, SendPoint.holds, hs]
      split_ifs <;> rfl
    · show a.states = _ ++ SendPoint.owed (if _ then _ else _)
      split_ifs <;> exact hstates
  case h_2 hs =>
    rw [hs] at hstates
    split_ifs at hstep with hfree
    obtain rfl := Option.some.inj hstep
    refine Explains.catchesUp
      ⟨hexclusive.acquire hfree rfl ?_, hgame, hhandled, hreplies, hstates⟩
    funext t
    cases t <;> simp [holds, SendPoint.holds]
  case h_3 hs =>
    specialize hsame (by rw [hs]; rfl)
    rw [hs] at hstates
    obtain rfl := Option.some.inj hstep
    have hserialize : a.step .serialize
        = some { a with states := a.states ++ [.gameState (serializeGameState h.game)] } := by
      rw [hsame]
      rfl
    refine Explains.catchesUp_step hserialize
      ⟨hexclusive.keep rfl ?_, hgame, hhandled, hreplies, ?_⟩
    · funext t
      cases t <;> simp [holds, SendPoint.holds, hs]
    · show a.states ++ _ = _
      rw [hstates]
      simp [SendPoint.owed, newMessage, broadcasts]
  case h_4 gameState hs =>
    rw [hs] at hstates
    obtain rfl := Option.some.inj hstep
    refine Explains.catchesUp
      ⟨hexclusive.release (t := .send) ?_ rfl ?_, hgame, hhandled, hreplies, hstates⟩
    · simp [holds, SendPoint.holds, hs]
    · funext t
      cases t <;> simp [holds, SendPoint.holds]
  case h_5 gameState hs =>
    rw [hs] at hstates
    obtain rfl := Option.some.inj hstep
    refine Explains.catchesUp ⟨hexclusive.keep rfl ?_, hgame, hhandled, ?_, ?_⟩
    · funext t
      cases t <;> simp [holds, SendPoint.holds, hs]
    · rw [hreplies]
      simp [replies, HostCall.reply]
    · rw [hstates]
      simp [broadcasts, HostCall.broadcast, SendPoint.owed]
  case h_6 => cases hstep

/-- The effect of the critical section of a MESSAGE. -/
theorem handleMessage_op {m : IncomingMessage} (hm : m.messageType = .message) (ρ : Rehash ℕ)
    (draw : ℤ × ℤ) (g : Game D F) :
    ((handleMessage ρ draw g m).run []).1 = (m.message.op D F).apply ρ draw g m.clientId := by
  obtain ⟨messageType, clientId, message⟩ := m
  cases hm
  rfl

/-- The atomic host handles the message in its critical section; the replies are owed. -/
theorem catchesUp_handle {m : IncomingMessage} {ρ : Rehash ℕ} {draw : ℤ × ℤ} {game : Game D F}
    {owed : List (Outgoing D × ℕ)} {point : ReceivePoint D} (hex : h.Explains a)
    (hs : h.receive = .switch m) (hdraw : AtomicHost.CanDraw h.game draw m)
    (hhandle : ((handleMessage ρ draw h.game m).run []).1 = (game, owed))
    (hholds : point.holds = true) (hinHand : point.inHand = [])
    (howed : point.owed game.gameMap = owed) :
    CatchesUp { h with game, receive := point } a := by
  have hfree : h.update.holds = false :=
    hex.exclusive.update_free (t := .receive) GameThread.noConfusion (by simp only [holds, hs]; rfl)
  have hsame : h.game = a.game := hex.game_eq hfree
  obtain ⟨hexclusive, -, hhandled, hreplies, hstates⟩ := hex
  rw [hs] at hhandled hreplies
  have hstep : a.step (.handle ρ draw m) = some { a with
      game, handled := a.handled ++ [m], replies := a.replies ++ owed } := by
    rw [hsame] at hdraw hhandle
    simp only [AtomicHost.step, if_pos hdraw, hhandle]
  refine Explains.catchesUp_step hstep ⟨hexclusive.keep rfl ?_, ?_, ?_, ?_, hstates⟩
  · funext t
    cases t with
    | receive => exact hholds.trans (by simp only [holds, hs]; rfl)
    | update | send => rfl
  · exact (seen_eq hfree game).symm
  · show h.taken = a.handled ++ [m] ++ point.inHand
    rw [hhandled, hinHand, List.append_nil]
    rfl
  · show a.replies ++ owed = h.replies ++ point.owed game.gameMap
    rw [hreplies, howed]
    exact congrArg (· ++ owed) (List.append_nil _)

theorem catchesUp_switch {m : IncomingMessage} {ρ : Rehash ℕ} {draw : ℤ × ℤ} (hex : h.Explains a)
    (hs : h.receive = .switch m) (hstep : h.switchStep m ρ draw = some h') : h'.CatchesUp a := by
  have hcanDraw : m.messageType ≠ .message → AtomicHost.CanDraw h.game draw m :=
    fun hm hmessage => absurd hmessage hm
  unfold switchStep at hstep
  split at hstep
  case h_1 hm =>
    obtain rfl := Option.some.inj hstep
    refine catchesUp_handle (ρ := ρ) hex hs (hcanDraw (by rw [hm]; nofun)) ?_ rfl rfl rfl
    simp only [handleMessage, hm]
    rfl
  case h_2 hm =>
    obtain rfl := Option.some.inj hstep
    refine catchesUp_handle (ρ := ρ) hex hs (hcanDraw (by rw [hm]; nofun)) ?_ rfl rfl rfl
    simp only [handleMessage, hm]
    rfl
  case h_3 hm =>
    obtain rfl := Option.some.inj hstep
    refine catchesUp_handle (ρ := ρ) hex hs (hcanDraw (by rw [hm]; nofun)) ?_ rfl rfl rfl
    simp only [handleMessage, hm]
    rfl
  case h_4 hm =>
    have hhandle := handleMessage_op hm ρ draw h.game
    split at hstep
    case h_1 id hop =>
      obtain rfl := Option.some.inj hstep
      refine catchesUp_handle (ρ := ρ) hex hs (fun _ => ?_) (by rw [hhandle, hop]; rfl) rfl rfl rfl
      rw [hop]
      trivial
    case h_2 op hop =>
      split_ifs at hstep with hdraw
      obtain rfl := Option.some.inj hstep
      refine catchesUp_handle hex hs (fun _ => hdraw) (hhandle.trans ?_) rfl rfl rfl
      cases hcase : m.message.op D F
      case ping id => exact absurd hcase (hop id)
      all_goals rfl

theorem catchesUp_receive {m : IncomingMessage} {ρ : Rehash ℕ} {draw : ℤ × ℤ} (hex : h.Explains a)
    (hstep : h.receiveStep m ρ draw = some h') : h'.CatchesUp a := by
  have hswitch : ∀ m, h.receive = .switch m → h.switchStep m ρ draw = some h' → h'.CatchesUp a :=
    fun m => catchesUp_switch hex
  obtain ⟨hexclusive, hgame, hhandled, hreplies, hstates⟩ := hex
  unfold receiveStep at hstep
  split at hstep <;> rename_i hs <;> try rw [hs] at hhandled hreplies
  case h_1 =>
    obtain rfl := Option.some.inj hstep
    refine Explains.catchesUp ⟨hexclusive.keep rfl ?_, hgame, ?_, ?_, hstates⟩
    · funext t
      cases t <;> simp [holds, ReceivePoint.holds, hs]
      split_ifs <;> rfl
    · show h.taken = _ ++ ReceivePoint.inHand (if _ then _ else _)
      split_ifs <;> exact hhandled
    · show a.replies = _ ++ ReceivePoint.owed _ (if _ then _ else _)
      split_ifs <;> exact hreplies
  case h_2 =>
    split_ifs at hstep <;> obtain rfl := Option.some.inj hstep
    · refine Explains.catchesUp ⟨hexclusive.keep rfl ?_, hgame, hhandled, hreplies, hstates⟩
      funext t
      cases t <;> simp [holds, ReceivePoint.holds, hs]
    · refine Explains.catchesUp ⟨hexclusive.keep rfl ?_, hgame, ?_, hreplies, hstates⟩
      · funext t
        cases t <;> simp [holds, ReceivePoint.holds, hs]
      · show h.taken ++ [m] = a.handled ++ [m]
        rw [hhandled]
        exact congrArg (· ++ [m]) (List.append_nil _)
  case h_3 =>
    split_ifs at hstep with hfree
    obtain rfl := Option.some.inj hstep
    refine Explains.catchesUp
      ⟨hexclusive.acquire hfree rfl ?_, hgame, hhandled, hreplies, hstates⟩
    funext t
    cases t <;> simp [holds, ReceivePoint.holds]
  case h_4 m => exact hswitch m hs hstep
  -- the calls of sendTo
  case h_5 clientId | h_8 clientId | h_9 id clientId =>
    obtain rfl := Option.some.inj hstep
    refine Explains.catchesUp ⟨hexclusive.keep rfl ?_, hgame, hhandled, ?_, ?_⟩
    · funext t
      cases t <;> simp [holds, ReceivePoint.holds, hs]
    · rw [hreplies]
      simp [replies, HostCall.reply, ReceivePoint.owed, newMessage]
    · rw [hstates]
      simp [broadcasts, HostCall.broadcast]
  case h_6 clientId =>
    obtain rfl := Option.some.inj hstep
    refine Explains.catchesUp ⟨hexclusive.keep rfl ?_, hgame, hhandled, hreplies, hstates⟩
    funext t
    cases t <;> simp [holds, ReceivePoint.holds, hs]
  case h_7 map clientId | h_10 =>
    obtain rfl := Option.some.inj hstep
    refine Explains.catchesUp
      ⟨hexclusive.release (t := .receive) ?_ rfl ?_, hgame, hhandled, hreplies, hstates⟩
    · simp [holds, ReceivePoint.holds, hs]
    · funext t
      cases t <;> simp [holds, ReceivePoint.holds]
  case h_11 => cases hstep

/-- The main thread only raises a flag and calls `stopServer`. -/
theorem catchesUp_main (hex : h.Explains a) (hstep : h.mainStep = some h') : h'.CatchesUp a := by
  obtain ⟨hexclusive, hgame, hhandled, hreplies, hstates⟩ := hex
  have hquiet : ∀ (main : MainPoint) (stop : Bool) (call : Option (HostCall D)),
      call.bind HostCall.reply = none → call.bind HostCall.broadcast = none →
      CatchesUp { h with main, stop, calls := h.calls ++ call.toList } a := by
    intro main stop call hreply hbroadcast
    refine Explains.catchesUp ⟨hexclusive.keep rfl rfl, hgame, hhandled, ?_, ?_⟩
    · rw [hreplies]
      cases call <;> simp_all [replies]
    · rw [hstates]
      cases call <;> simp_all [broadcasts]
  have hsilent : ∀ (main : MainPoint) (stop : Bool), CatchesUp { h with main, stop } a := by
    intro main stop
    simpa using hquiet main stop none rfl rfl
  unfold mainStep at hstep
  split at hstep
  case h_1 | h_2 => exact Option.some.inj hstep ▸ hsilent _ _
  case h_3 | h_4 | h_5 =>
    split at hstep <;> cases hstep
    exact hsilent _ _
  case h_6 => exact Option.some.inj hstep ▸ hquiet _ _ (some .setStop) rfl rfl
  case h_7 => exact Option.some.inj hstep ▸ hquiet _ _ (some .stopReceivingThreads) rfl rfl
  case h_8 => cases hstep

/-! ## Every interleaving -/

theorem explains_initial (m : GameMap D) (first : ℤ) :
    (initial m first : HostThreads D F).Explains (AtomicHost.initial m) :=
  ⟨fun t => by cases t <;> simp [initial, holds, UpdatePoint.holds, SendPoint.holds,
    ReceivePoint.holds], rfl, rfl, rfl, rfl⟩

theorem catchesUp_step {l : HostLabel} (hex : h.Explains a) (hstep : h.step l = some h') :
    h'.CatchesUp a := by
  cases l with
  | interrupt =>
    obtain rfl := Option.some.inj hstep
    exact Explains.catchesUp
      ⟨hex.exclusive.keep rfl rfl, hex.game, hex.handled, hex.replies, hex.states⟩
  | main => exact catchesUp_main hex hstep
  | update now later ρ => exact catchesUp_update hex hstep
  | send => exact catchesUp_send hex hstep
  | receive m ρ draw => exact catchesUp_receive hex hstep

end HostThreads

namespace AtomicHost

variable {a b : AtomicHost D F} [Trig F D] [ToInt D] [OfWord 64 D] [OfWord 32 F] [ToWord 64 D]
  [ToWord 32 F]

/-- What the atomic host does to the game is one game event, if anything. -/
theorem game_of_step {e : HostEvent} (h : a.step e = some b) :
    b.game = a.game ∨ ∃ e', a.game.step e' = some b.game := by
  cases e with
  | serialize =>
    obtain rfl := Option.some.inj h
    exact .inl rfl
  | tick ρ =>
    obtain ⟨game, htick, rfl⟩ := Option.map_eq_some_iff.mp h
    exact .inr ⟨.tick ρ, htick⟩
  | handle ρ draw m =>
    simp only [step] at h
    split_ifs at h with hdraw
    obtain rfl := Option.some.inj h
    obtain ⟨messageType, clientId, message⟩ := m
    cases messageType with
    | empty => exact .inl rfl
    | newConnection => exact .inr ⟨.connect ρ clientId, rfl⟩
    | lostConnection => exact .inr ⟨.disconnect clientId, rfl⟩
    | message =>
      have hop := hdraw rfl
      have hhandle : ((handleMessage ρ draw a.game ⟨.message, clientId, message⟩).run []).1
          = (message.op D F).apply ρ draw a.game clientId := rfl
      simp only [hhandle]
      cases hcase : message.op D F <;> rw [hcase] at hop
      case spawn => exact .inr ⟨.spawn ρ clientId draw, if_pos hop⟩
      case shoot => exact .inr ⟨.shoot ρ clientId, rfl⟩
      case changeOrientation angle => exact .inr ⟨.changeOrientation ρ clientId angle, rfl⟩
      case changeMovementDirection velocityX velocityY =>
        exact .inr ⟨.changeMovement ρ clientId velocityX velocityY, rfl⟩
      all_goals exact .inl rfl

/-- The runs of the game contain those of the atomic host. -/
theorem game_of_run {es : List HostEvent} (h : Lts.run step es a = some b) :
    Lts.Reach Game.step Lts.Any a.game b.game := by
  refine (Lts.Reach.of_run h).invariant (I := fun c => Lts.Reach Game.step Lts.Any a.game c.game)
    .refl fun c e d hc _ hstep => ?_
  rcases game_of_step hstep with hsame | ⟨e', he'⟩
  · rwa [hsame]
  · exact hc.tail trivial he'

end AtomicHost

/-- **Every interleaving of the host.** The mutex is held by the thread that is in its critical
section, and what the threads have done is what some run of the atomic host does: messages are
handled in the order they are taken, their replies sent in that order, and every state sent to
everyone is the game between two of its events. -/
theorem linearized_of_reach [Trig F D] [ToInt D] [OfWord 64 D] [OfWord 32 F] [ToWord 64 D]
    [ToWord 32 F] (m : GameMap D) (first : ℤ) (h : HostThreads D F)
    (hreach : Lts.Reach HostThreads.step Lts.Any (.initial m first) h) :
    ∃ es a, Lts.run AtomicHost.step es (.initial m) = some a ∧ h.Explains a ∧
      (h.updateMutex = none → h.game = a.game) ∧
      Lts.Reach Game.step Lts.Any (.initial m) a.game := by
  obtain ⟨es, a, hrun, hex⟩ := hreach.simulation (HostThreads.explains_initial m first)
    fun _ _ _ _ hex _ hstep => HostThreads.catchesUp_step hex hstep
  refine ⟨es, a, hrun, hex, fun hfree => hex.game_eq ?_, AtomicHost.game_of_run hrun⟩
  refine Bool.eq_false_iff.mpr fun hheld => ?_
  rw [(hex.exclusive .update).mpr hheld] at hfree
  cases hfree

/-- Client 0 connects while the update thread is in a tick, and the send thread serializes the game
before the map is sent. -/
def busyHost : List HostLabel :=
  let connected := .receive ⟨.newConnection, 0, .ofBytes []⟩ Rehash.front 0
  let clock := .update 4000000 4000000 Rehash.front
  [connected, connected, .send, clock, clock, clock, clock, clock, connected, connected, connected,
    connected, connected, .send, .send, .send, .send, connected]

theorem linearized_of_reach_busyHost :
    ∃ h es a, Lts.run HostThreads.step busyHost (.initial ⟨[], 0, 0, [], []⟩ 0 : HostThreads ℝ ℝ)
        = some h ∧ h.updateMutex = none ∧ h.calls.length = 3 ∧
      Lts.run AtomicHost.step es (.initial ⟨[], 0, 0, [], []⟩) = some a ∧ h.game = a.game := by
  obtain ⟨h, hrun, hfree, hcalls⟩ : ∃ h, Lts.run HostThreads.step busyHost
      (.initial ⟨[], 0, 0, [], []⟩ 0 : HostThreads ℝ ℝ) = some h ∧ h.updateMutex = none ∧
      h.calls.length = 3 := ⟨_, rfl, rfl, rfl⟩
  obtain ⟨es, a, hatomic, -, hgame, -⟩ := linearized_of_reach _ 0 h (.of_run hrun)
  exact ⟨h, es, a, hrun, hfree, hcalls, hatomic, hgame hfree⟩

end PRShooter
