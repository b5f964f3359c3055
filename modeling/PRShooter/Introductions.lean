import PRShooter.Acceptance
import PRShooter.CausalOrder
import PRShooter.ClientNews

/-!
# Nobody is shown himself before he knows who he is

`draw_player` tells the player himself from his enemies by the id that the WELCOME has told. The
host enters a client into the game before it sends the WELCOME, and the states of the game are sent
by another thread through another mailbox. But the WELCOME is handed over before `update_mutex` is
released, so the next state is serialized behind it, and no broadcast overtakes a reply
(`welcomed_before_seen`). The map is sent after the mutex has been released and may come later.

What the client decodes is what was sent as long as no read of a length header is cut short, see
`ClientReceive`. The id 0 is also that of the entries that `players[owner_id]` adds, so nothing is
said of it.
-/

set_option linter.unusedSectionVars false

namespace PRShooter

open LittleEndian

/-! ## The ids in a game -/

section Ids

variable {D F : Type}

/-- The ids that are serialized with the players. -/
def IdsMeet (P : ℕ → Prop) (players : UMap ℕ (Player D F)) : Prop :=
  players.All fun _ p => P p.playerId

variable {P Q : ℕ → Prop} {players players' : UMap ℕ (Player D F)} {g g' : Game D F}

theorem IdsMeet.mono (h : IdsMeet P players) (hPQ : ∀ i, P i → Q i) : IdsMeet Q players :=
  fun k hk => hPQ _ (h k hk)

variable [Zero D] [One D] [Zero F] [NatCast D] [IntCast D] [OfScientific D] [Add D] [Sub D] [Mul D]
  [Div D] [Neg D] [LT D] [LE D] [DecidableLT D] [DecidableLE D] [HasSqrt D]

namespace IdsMeet

theorem set {k : ℕ} {p : Player D F} (h : IdsMeet P players)
    (hp : p.playerId = (players.val k).playerId) : IdsMeet P (players.set k p) :=
  UMap.All.set h fun hk => by
    rw [hp]
    exact h k hk

/-- A default entry has id 0. -/
theorem index (h : IdsMeet P players) (hzero : P 0) (ρ : Rehash ℕ) (k : ℕ) :
    IdsMeet P (players.index ρ k (Player.new 0)) :=
  UMap.All.index h ρ hzero

theorem damagePlayer (h : IdsMeet P players) (hzero : P 0) (ρ : Rehash ℕ) (ownerId k : ℕ) :
    IdsMeet P (damagePlayer ρ players ownerId k) := by
  simp only [PRShooter.damagePlayer]
  split_ifs
  · have hdeath : IdsMeet P (players.set k
        { players.val k with alive := false, deaths := (players.val k).deaths + 1 }) := h.set rfl
    exact (hdeath.index hzero ρ ownerId).set rfl
  · exact h.set rfl

theorem projectileLoop {ρ : Rehash ℕ} {m : GameMap D} {ps left : List (Projectile D)}
    (h : IdsMeet P players) (hzero : P 0)
    (hloop : projectileLoop ρ m players ps = some (players', left)) : IdsMeet P players' := by
  refine projectileLoop_rel (R := fun u v => IdsMeet P u → IdsMeet P v) (fun _ => id)
    (fun huv hvw hu => hvw (huv hu)) (fun hcheck hu => ?_) hloop h
  rcases players_of_checkProjectileCollisions hcheck with rfl | ⟨-, k, -, rfl⟩
  · exact hu
  · exact hu.damagePlayer hzero ρ _ k

theorem updatePositions (h : IdsMeet P g.players) : IdsMeet P (updatePositions g).players := by
  intro k hk
  rw [(onlyCentres_updatePositions g).playerId k]
  exact h k hk

theorem checkCollisions {ρ : Rehash ℕ} (h : IdsMeet P g.players) (hzero : P 0)
    (hcheck : checkCollisions ρ g = some g') : IdsMeet P g'.players := by
  obtain ⟨players, hplayers, hrest⟩ := Option.bind_eq_some_iff.mp hcheck
  obtain ⟨⟨players', projectiles⟩, hloop, hlast⟩ := Option.bind_eq_some_iff.mp hrest
  obtain rfl := Option.some.inj hlast
  have hmoved := onlyCentres_checkPlayerCollisions hplayers
  have hids : IdsMeet P players := by
    intro k hk
    rw [hmoved.playerId k]
    exact h k (hmoved.1 ▸ hk)
  exact hids.projectileLoop hzero hloop

/-- A message may enter its sender, as a default entry. -/
theorem apply [Trig F D] (h : IdsMeet P g.players) (hzero : P 0) (ρ : Rehash ℕ) (draw : ℤ × ℤ)
    (op : ClientOp D F) (c : ℕ) : IdsMeet P (op.apply ρ draw g c).1.players := by
  have hindex : IdsMeet P (g.indexPlayer ρ c).players := h.index hzero ρ c
  cases op with
  | spawn =>
    simp only [ClientOp.apply, spawnPlayer]
    split_ifs
    · exact hindex.set rfl
    · exact hindex
  | shoot =>
    simp only [ClientOp.apply, shootProjectile]
    split_ifs <;> exact hindex
  | changeOrientation angle => exact hindex.set rfl
  | changeMovementDirection velocityX velocityY =>
    simp only [ClientOp.apply, changePlayerMovement]
    split_ifs
    · exact hindex.set rfl
    · exact h
  | ping | unknown => exact h

end IdsMeet

end Ids

/-! ## What the host has told -/

section Calls

variable {D : Type}

/-- The id is that of a default entry, or of a client whose WELCOME has been handed over. -/
def Told (calls : List (HostCall D)) (i : ℕ) : Prop :=
  i = 0 ∨ ∃ data, HostCall.sendTo ⟨data, .welcome i⟩ i ∈ calls

theorem Told.mono {calls calls' : List (HostCall D)} {i : ℕ} (h : Told calls i)
    (hcalls : calls <+: calls') : Told calls' i :=
  h.imp_right fun h => h.imp fun _ hmem => hcalls.subset hmem

variable (F : Type) [ToWord 64 D] [ToWord 32 F] [NatCast D]

/-- The message is a state of the game whose players have been told their ids. -/
def StateOfTold (calls : List (HostCall D)) (message : OutgoingMessage D) : Prop :=
  ∃ g : Game D F, message.content = .gameState (serializeGameState g) ∧ g.Fits ∧
    IdsMeet (Told calls) g.players

/-- Only such states are sent to everyone. -/
def CallLegal (calls : List (HostCall D)) : HostCall D → Prop
  | .sendToEveryone message => StateOfTold F calls message
  | _ => True

variable {F}

theorem StateOfTold.mono {calls calls' : List (HostCall D)} {message : OutgoingMessage D}
    (h : StateOfTold F calls message) (hcalls : calls <+: calls') :
    StateOfTold F calls' message := by
  obtain ⟨g, hcontent, hfits, hids⟩ := h
  exact ⟨g, hcontent, hfits, hids.mono fun i hi => hi.mono hcalls⟩

end Calls

variable {D F : Type} [Zero D] [One D] [Zero F] [NatCast D] [IntCast D] [OfScientific D] [Add D]
  [Sub D] [Mul D] [Div D] [Neg D] [LT D] [LE D] [DecidableLT D] [DecidableLE D] [HasSqrt D]
  [ToWord 64 D] [ToWord 32 F]

namespace HostThreads

variable {h h' : HostThreads D F}

/-- A state that is serialized fits into its fields. -/
def StatesFit (h : HostThreads D F) : HostLabel → Prop
  | .send => h.send = .serializeGameState → h.game.Fits
  | _ => True

/-- The id may be in the game: it has been told, or the receive thread is about to tell it. -/
def Met (h : HostThreads D F) (i : ℕ) : Prop :=
  Told h.calls i ∨ h.receive = .sendWelcomeMessage i

theorem met_zero : h.Met 0 := .inl (.inl rfl)

/-- Whom the host knows. -/
structure Introduced (h : HostThreads D F) : Prop where
  game : IdsMeet h.Met h.game.players
  held : ∀ message ∈ h.send.held, StateOfTold F h.calls message
  calls : History.EachEvent (CallLegal F) h.calls

theorem introduced_initial (m : GameMap D) (first : ℤ) :
    (initial m first : HostThreads D F).Introduced where
  game k hk := by simp [initial, Game.initial] at hk
  held := by simp [initial, SendPoint.held]
  calls := .nil

/-- A step of another thread than the send thread. -/
theorem Introduced.keep (hin : h.Introduced) (hgame : IdsMeet h'.Met h'.game.players)
    (hsend : h'.send = h.send)
    (hcalls : h'.calls = h.calls ∨ ∃ call, call.everyone = none ∧ h'.calls = h.calls ++ [call]) :
    h'.Introduced := by
  refine ⟨hgame, ?_, ?_⟩
  · rw [hsend]
    refine fun message hmessage => (hin.held message hmessage).mono ?_
    rcases hcalls with hcalls | ⟨call, -, hcalls⟩ <;> rw [hcalls]
    exact List.prefix_append _ _
  · rcases hcalls with hcalls | ⟨call, hnone, hcalls⟩ <;> rw [hcalls]
    · exact hin.calls
    · refine hin.calls.append ?_
      cases call with
      | sendToEveryone message => cases hnone
      | sendTo | setStop | stopReceivingThreads => trivial

theorem introduced_main (hin : h.Introduced) (hstep : h.mainStep = some h') : h'.Introduced := by
  have hmore : ∀ call : HostCall D, IdsMeet
      (fun i => Told (h.calls ++ [call]) i ∨ h.receive = .sendWelcomeMessage i) h.game.players :=
    fun call => hin.game.mono fun i => Or.imp_left fun hi => hi.mono (List.prefix_append _ _)
  unfold mainStep at hstep
  split at hstep
  case h_6 | h_7 =>
    obtain rfl := Option.some.inj hstep
    exact hin.keep (hmore _) rfl (.inr ⟨_, rfl, rfl⟩)
  case h_8 => cases hstep
  case h_3 | h_4 | h_5 =>
    split at hstep <;> cases hstep
    exact hin.keep hin.game rfl (.inl rfl)
  all_goals
    obtain rfl := Option.some.inj hstep
    exact hin.keep hin.game rfl (.inl rfl)

theorem introduced_update {now later : ℤ} {ρ : Rehash ℕ} (hin : h.Introduced)
    (hstep : h.updateStep now later ρ = some h') : h'.Introduced := by
  unfold updateStep at hstep
  split at hstep
  case h_3 =>
    split_ifs at hstep <;> obtain rfl := Option.some.inj hstep
    · exact hin.keep hin.game.updatePositions rfl (.inl rfl)
    · exact hin.keep hin.game rfl (.inl rfl)
  case h_4 =>
    obtain ⟨game, hcheck, rfl⟩ := Option.map_eq_some_iff.mp hstep
    exact hin.keep (hin.game.checkCollisions met_zero hcheck) rfl (.inl rfl)
  case h_5 => cases hstep
  all_goals
    split_ifs at hstep
    all_goals
      obtain rfl := Option.some.inj hstep
      exact hin.keep hin.game rfl (.inl rfl)

/-- The send thread serializes under the mutex, so nobody is halfway through being told. -/
theorem introduced_send (hin : h.Introduced) (hex : h.Exclusive) (hok : h.StatesFit .send)
    (hstep : h.sendStep = some h') : h'.Introduced := by
  obtain ⟨hgame, hheld, hcalls⟩ := hin
  unfold sendStep at hstep
  split at hstep
  case h_1 hs =>
    obtain rfl := Option.some.inj hstep
    refine ⟨hgame, ?_, hcalls⟩
    by_cases hstop : h.stop = true <;> simp [hstop, SendPoint.held]
  case h_2 hs =>
    split_ifs at hstep
    obtain rfl := Option.some.inj hstep
    exact ⟨hgame, by simp [SendPoint.held], hcalls⟩
  case h_3 hs =>
    obtain rfl := Option.some.inj hstep
    refine ⟨hgame, fun message hmessage => ?_, hcalls⟩
    obtain rfl := List.mem_singleton.mp hmessage
    refine ⟨h.game, rfl, hok hs, hgame.mono fun i hi => hi.resolve_right fun hreceive => ?_⟩
    have hmine := (hex .send).mpr (by simp [holds, hs, SendPoint.holds])
    have hother := (hex .receive).mpr (by simp [holds, hreceive, ReceivePoint.holds])
    rw [hmine] at hother
    cases hother
  case h_4 gameState hs =>
    rw [hs] at hheld
    obtain rfl := Option.some.inj hstep
    exact ⟨hgame, hheld, hcalls⟩
  case h_5 gameState hs =>
    rw [hs] at hheld
    obtain rfl := Option.some.inj hstep
    refine ⟨hgame.mono fun i => Or.imp_left fun hi => hi.mono (List.prefix_append _ _),
      by simp [SendPoint.held], ?_⟩
    exact hcalls.append (hheld gameState (List.mem_singleton_self _))
  case h_6 => cases hstep

section Receive

variable [Trig F D] [ToInt D] [OfWord 64 D] [OfWord 32 F] {m : IncomingMessage} {ρ : Rehash ℕ}
  {draw : ℤ × ℤ}

theorem introduced_switch (hin : h.Introduced) (hs : h.receive = .switch m)
    (hstep : h.switchStep m ρ draw = some h') : h'.Introduced := by
  have htold : IdsMeet (Told h.calls) h.game.players :=
    hin.game.mono fun i hi => hi.resolve_right (by simp [hs])
  have hzero : Told h.calls 0 := .inl rfl
  have hquiet : ∀ (game : Game D F) (receive : ReceivePoint D),
      IdsMeet (Told h.calls) game.players → Introduced { h with game, receive } :=
    fun game receive hgame => hin.keep (hgame.mono fun i => .inl) rfl (.inl rfl)
  unfold switchStep at hstep
  split at hstep
  case h_1 => exact Option.some.inj hstep ▸ hquiet h.game _ htold
  case h_2 =>
    obtain rfl := Option.some.inj hstep
    refine hin.keep ?_ rfl (.inl rfl)
    exact UMap.All.insert (htold.mono fun i => .inl) ρ (.inr rfl)
  case h_3 => exact Option.some.inj hstep ▸ hquiet _ _ (UMap.All.erase htold m.clientId)
  case h_4 =>
    split at hstep
    · exact Option.some.inj hstep ▸ hquiet h.game _ htold
    · split_ifs at hstep
      exact Option.some.inj hstep ▸ hquiet _ _ (htold.apply hzero ρ draw _ m.clientId)

theorem introduced_receive (hin : h.Introduced) (hstep : h.receiveStep m ρ draw = some h') :
    h'.Introduced := by
  have hswitch : ∀ m, h.receive = .switch m → h.switchStep m ρ draw = some h' → h'.Introduced :=
    fun m => introduced_switch hin
  unfold receiveStep at hstep
  split at hstep <;> rename_i hs
  case h_4 m => exact hswitch m hs hstep
  case h_5 clientId =>
    -- the client that was being told
    obtain rfl := Option.some.inj hstep
    refine hin.keep (hin.game.mono fun i hi => .inl ?_) rfl (.inr ⟨_, rfl, rfl⟩)
    rcases hi with hi | hi
    · exact hi.mono (List.prefix_append _ _)
    · obtain rfl := ReceivePoint.sendWelcomeMessage.inj (hs.symm.trans hi)
      exact .inr ⟨h.created, by simp [newMessage]⟩
  case h_11 => cases hstep
  all_goals
    have htold : IdsMeet (Told h.calls) h.game.players :=
      hin.game.mono fun i hi => hi.resolve_right (by simp [hs])
  case h_2 | h_3 =>
    split_ifs at hstep <;> obtain rfl := Option.some.inj hstep <;>
      exact hin.keep (htold.mono fun i => .inl) rfl (.inl rfl)
  case h_1 | h_6 | h_7 | h_10 =>
    obtain rfl := Option.some.inj hstep
    exact hin.keep (htold.mono fun i => .inl) rfl (.inl rfl)
  case h_8 | h_9 =>
    obtain rfl := Option.some.inj hstep
    exact hin.keep (htold.mono fun i hi => .inl (hi.mono (List.prefix_append _ _))) rfl
      (.inr ⟨_, rfl, rfl⟩)

theorem introduced_step {l : HostLabel} (hin : h.Introduced) (hex : h.Exclusive)
    (hok : h.StatesFit l) (hstep : h.step l = some h') : h'.Introduced := by
  cases l with
  | interrupt =>
    obtain rfl := Option.some.inj hstep
    exact hin.keep hin.game rfl (.inl rfl)
  | main => exact introduced_main hin hstep
  | update now later ρ => exact introduced_update hin hstep
  | send => exact introduced_send hin hex hok hstep
  | receive m ρ draw => exact introduced_receive hin hstep

theorem calls_of_step {l : HostLabel} (hstep : h.step l = some h') : h.calls <+: h'.calls := by
  cases outlet_of_step hstep with
  | silent _ hcalls | create _ _ hcalls => rw [hcalls]
  | sendNew _ _ _ _ hcalls | sendTo _ _ _ _ hcalls | sendToEveryone _ _ _ hcalls
  | setStop _ hcalls | stopReceivingThreads _ hcalls =>
    rw [hcalls]
    exact List.prefix_append _ _

end Receive

end HostThreads

/-! ## The calls in the log of the server -/

section Log

variable {D : Type}

/-- The call of the host that the event records. -/
def ServerEvent.hostCall : ServerEvent (OutgoingMessage D) → List (HostCall D)
  | .sendTo msg => [.sendTo msg.message msg.clientId]
  | .sendToEveryone message => [.sendToEveryone message]
  | _ => []

/-- The calls that hand over a message, in the order they were made. -/
def hostCalls (log : List (ServerEvent (OutgoingMessage D))) : List (HostCall D) :=
  log.flatMap ServerEvent.hostCall

/-- The call hands over a message. -/
def HostCall.hands (call : HostCall D) : Bool := call.message.isSome

theorem hostCalls_of_uncalled {s t : Server (OutgoingMessage D)} (h : s.Uncalled t)
    (hlog : s.log <+: t.log) : hostCalls t.log = hostCalls s.log := by
  obtain ⟨rest, hrest⟩ := hlog
  have hsendTo := h.sendTo
  have hsendToEveryone := h.sendToEveryone
  rw [← hrest, sendToCalls, List.flatMap_append] at hsendTo
  rw [← hrest, everyoneMessages, List.flatMap_append] at hsendToEveryone
  have hnoSendTo := List.flatMap_eq_nil_iff.mp (List.append_right_eq_self.mp hsendTo)
  have hnoEveryone := List.flatMap_eq_nil_iff.mp (List.append_right_eq_self.mp hsendToEveryone)
  rw [← hrest, hostCalls, List.flatMap_append]
  refine List.append_right_eq_self.mpr (List.flatMap_eq_nil_iff.mpr fun e he => ?_)
  cases e with
  | sendTo msg => cases hnoSendTo _ he
  | sendToEveryone message => cases hnoEveryone _ he
  | _ => rfl

theorem hostCalls_of_call [DecidableEq (Outgoing D)] {call : HostCall D}
    {s t : SentBuffers (OutgoingMessage D)} (h : s.step call.label = some t) :
    hostCalls t.server.log = hostCalls s.server.log ++ [call].filter HostCall.hands := by
  have hserver := HostProcess.server_of_step h
  cases call with
  | sendTo message clientId | sendToEveryone message =>
    simp only [HostCall.label, Server.step] at hserver
    split_ifs at hserver
    rw [← Option.some.inj hserver, hostCalls, List.flatMap_append]
    rfl
  | setStop | stopReceivingThreads =>
    rw [(tableStep_of_step rfl hserver).log]
    exact (List.append_nil _).symm

theorem hostCalls_of_run [DecidableEq (Outgoing D)] {calls : List (HostCall D)}
    {s t : SentBuffers (OutgoingMessage D)}
    (h : Lts.run SentBuffers.step (calls.map HostCall.label) s = some t) :
    hostCalls t.server.log = hostCalls s.server.log ++ calls.filter HostCall.hands := by
  induction calls generalizing s with
  | nil =>
    obtain rfl : s = t := by simpa using h
    exact (List.append_nil _).symm
  | cons call calls ih =>
    obtain ⟨u, hu, hrest⟩ := Option.bind_eq_some_iff.mp h
    rw [ih hrest, hostCalls_of_call hu, List.append_assoc, ← List.filter_append]
    rfl

theorem mem_messagesTo_of_mem_hostCalls {log : List (ServerEvent (OutgoingMessage D))}
    {message : OutgoingMessage D} {i : ℕ} (h : .sendTo message i ∈ hostCalls log) :
    message ∈ messagesTo i (sendToCalls log) := by
  obtain ⟨e, he, hcall⟩ := List.mem_flatMap.mp h
  refine List.mem_map.mpr ⟨⟨message, i⟩, List.mem_filter.mpr ⟨?_, by simp⟩, rfl⟩
  refine List.mem_flatMap.mpr ⟨e, he, ?_⟩
  cases e with
  | sendTo msg =>
    obtain ⟨rfl, rfl⟩ := HostCall.sendTo.inj (List.mem_singleton.mp hcall)
    exact List.mem_singleton_self _
  | sendToEveryone message' => cases List.mem_singleton.mp hcall
  | _ => cases hcall

end Log

/-- What is attempted to a client, event by event. -/
theorem eachEvent_attemptsTo {M : Type} {i : ℕ} {cond : List (Payload M) → Payload M → Prop}
    {log : List (ServerEvent M)}
    (h : History.EachEvent (fun pre e => ∀ payload, e = .attempt i payload →
      cond (attemptsTo i pre) payload) log) : History.EachEvent cond (attemptsTo i log) := by
  induction log using List.reverseRecOn with
  | nil => exact .nil
  | append_singleton log e ih =>
    have hlast := h log e [] rfl
    specialize ih (h.of_initial (List.prefix_append _ _))
    have hsplit : attemptsTo i (log ++ [e]) = attemptsTo i log ++ e.attemptTo i := by
      simp [attemptsTo]
    rw [hsplit]
    cases e with
    | attempt j payload =>
      by_cases hj : j = i
      · subst hj
        simpa [ServerEvent.attemptTo] using ih.append (hlast payload rfl)
      · simpa [ServerEvent.attemptTo, hj] using ih
    | _ => simpa [ServerEvent.attemptTo] using ih

namespace HostProcess

variable [Trig F D] [ToInt D] [OfWord 64 D] [OfWord 32 F] [DecidableEq (Outgoing D)]
  {p p' : HostProcess D F}

def StatesFit (p : HostProcess D F) : ProcessLabel D → Prop
  | .host l => p.host.StatesFit l
  | .server _ => True

/-- The host has told what it should, and the log has its calls in their order. -/
structure Telling (p : HostProcess D F) : Prop where
  host : p.host.Introduced
  calls : hostCalls p.server.server.log = p.host.calls.filter HostCall.hands

theorem telling_step {l : ProcessLabel D} (h : p.Telling) (hex : p.host.Exclusive)
    (hok : p.StatesFit l) (hstep : p.step l = some p') : p'.Telling := by
  cases l with
  | host l =>
    obtain ⟨hhost, hrun⟩ := step_host hstep
    refine ⟨HostThreads.introduced_step h.host hex hok hhost, ?_⟩
    obtain ⟨made, hmade⟩ := HostThreads.calls_of_step hhost
    rw [← hmade, List.drop_left] at hrun
    rw [hostCalls_of_run hrun, h.calls, ← hmade, List.filter_append]
  | server l =>
    simp only [step] at hstep
    split_ifs at hstep with hl
    obtain ⟨server, hserver, rfl⟩ := Option.map_eq_some_iff.mp hstep
    have hmoved := (SentBuffers.step_ofServer hl hserver).1
    refine ⟨h.host, ?_⟩
    rw [hostCalls_of_uncalled (Server.uncalled_of_step hl hmoved)
      (Server.move_of_step hmoved).log_mono]
    exact h.calls

theorem telling_of_reach {m : GameMap D} {first : ℤ}
    (h : Lts.Reach step StatesFit (initial m first) p) :
    Lts.Reach step Lts.Any (initial m first) p ∧ p.Telling := by
  refine h.invariant (I := fun p => Lts.Reach step Lts.Any (initial m first) p ∧ p.Telling)
    ⟨.refl, HostThreads.introduced_initial m first, rfl⟩ fun u l v hu hok hstep => ?_
  obtain ⟨hreach, htelling⟩ := hu
  obtain ⟨-, a, -, hex⟩ := explained_of_reach hreach
  exact ⟨hreach.tail trivial hstep, telling_step htelling hex.exclusive hok hstep⟩

/-! ## What is attempted to a client -/

variable (F) in
/-- A state is attempted to a client that is in it after its WELCOME. -/
def Shown (i : ℕ) (before : List (Payload (OutgoingMessage D))) :
    Payload (OutgoingMessage D) → Prop
  | .everyone (some b) => ∃ g : Game D F, b.message.content = .gameState (serializeGameState g) ∧
      g.Fits ∧ IdsMeet (fun j => j = i → i = 0 ∨
        ∃ data, Payload.individual ⟨data, .welcome i⟩ ∈ before) g.players
  | _ => True

theorem shown_of_telling (h : p.Telling)
    (hcausal : History.EachEvent CausalLegal p.server.server.log) (i : ℕ) :
    History.EachEvent (Shown F i) (attemptsTo i p.server.server.log) := by
  refine eachEvent_attemptsTo fun pre' e post hlog payload he => ?_
  subst he
  cases payload with
  | individual message => trivial
  | everyone b =>
    cases b with
    | none => trivial
    | some b =>
      obtain ⟨pre, ⟨hcalled, -⟩, hattempted⟩ := hcausal pre' _ post hlog
      -- the call of the broadcast among those of the host
      have hcall : hostCalls pre ++ [.sendToEveryone b.message]
          <+: p.host.calls.filter HostCall.hands := by
        have hbefore : pre' <+: p.server.server.log := hlog ▸ List.prefix_append _ _
        have hcalls := (hcalled.trans hbefore).flatMap ServerEvent.hostCall
        rw [List.flatMap_append] at hcalls
        rw [← h.calls]
        exact hcalls
      obtain ⟨rest, hrest⟩ := hcall
      rw [List.append_assoc] at hrest
      obtain ⟨first, others, hfirst, hpre, hothers⟩ := List.filter_eq_append_iff.mp hrest.symm
      obtain ⟨silent, last, rfl, hsilent, -, -⟩ := List.filter_eq_cons_iff.mp hothers
      obtain ⟨g, hcontent, hfits, hids⟩ := h.host.calls (first ++ silent) _ last
        (by rw [hfirst, List.append_assoc])
      refine ⟨g, hcontent, hfits, hids.mono fun j hj hji => ?_⟩
      subst hji
      refine hj.imp_right fun htold => htold.imp fun data hmem => ?_
      have hsent : HostCall.sendTo ⟨data, .welcome j⟩ j ∈ hostCalls pre := by
        rw [← hpre]
        refine List.mem_filter.mpr ⟨(List.mem_append.mp hmem).resolve_right fun hlate => ?_, rfl⟩
        exact hsilent _ hlate rfl
      have hmessage := hattempted.subset (mem_messagesTo_of_mem_hostCalls hsent)
      rw [messagesTo_individualAttempts] at hmessage
      obtain ⟨payload, hpayload, hsome⟩ := List.mem_filterMap.mp hmessage
      cases payload with
      | individual message =>
        obtain rfl := Option.some.inj hsome
        exact hpayload
      | everyone b' => cases hsome

end HostProcess

/-! ## What the client decodes -/

theorem type_of_gameState {body rest : List UInt8} {view : Client.GameState}
    (h : Client.readReceived.run body = some (.gameState view, rest)) :
    DataType.ofByte (value (body.take 1)) = .gameState := by
  unfold Client.readReceived at h
  rw [StateT.run_bind, Client.run_readInt, Option.bind_eq_bind, Option.bind_some] at h
  cases htype : DataType.ofByte (value (body.take 1)) with
  | gameState => rfl
  | _ => simp [htype, Option.bind_eq_some_iff] at h

section Bodies

variable {D : Type} [NatCast D] [ToWord 64 D]

/-- A body that is cut off has its type or is empty, which the client takes for a WELCOME. -/
theorem type_of_take {type : ℕ} (hbyte : type < 256) (htype : DataType.ofByte type ≠ .gameState)
    (rest : List UInt8) (n : ℕ) :
    DataType.ofByte (value (((bytes 1 type ++ rest).take n).take 1)) ≠ .gameState := by
  cases n with
  | zero => exact DataType.noConfusion
  | succ n =>
    rw [List.take_take, Nat.min_eq_left (by omega), List.take_left' (length_bytes 1 type),
      value_bytes_of_lt (by simpa using hbyte)]
    exact htype

/-- A reply is not taken for a state of the game. -/
theorem type_of_reply {content : Outgoing D} (h : ∀ buffer, content ≠ .gameState buffer) :
    DataType.ofByte (value (content.body.take 1)) ≠ .gameState := by
  have hwritten : ∃ type rest, content.buffer.written = bytes 1 type ++ rest ∧ type < 256 ∧
      DataType.ofByte type ≠ .gameState := by
    cases content with
    | welcome playerId => exact ⟨DataType.welcomeMessage.toNat, _, rfl, by decide, by decide⟩
    | map m => exact ⟨DataType.gameMap.toNat, _, written_serializeMap m, by decide, by decide⟩
    | pingReply id => exact ⟨DataType.ping.toNat, _, rfl, by decide, by decide⟩
    | gameState buffer => exact absurd rfl (h buffer)
  obtain ⟨type, rest, hbytes, hbyte, htype⟩ := hwritten
  rw [Outgoing.body, hbytes]
  exact type_of_take hbyte htype rest _

end Bodies

variable [Trig F D] [ToInt D] [OfWord 64 D] [OfWord 32 F]

theorem replies_of_run {m : GameMap D} {es : List HostEvent} {a : AtomicHost D F}
    (h : Lts.run AtomicHost.step es (.initial m) = some a) :
    ∀ r ∈ a.replies, ∀ buffer, r.1 ≠ .gameState buffer := by
  refine Lts.run_invariant (I := fun a : AtomicHost D F =>
    ∀ r ∈ a.replies, ∀ buffer, r.1 ≠ .gameState buffer) h (by simp [AtomicHost.initial]) ?_
  rintro u e - v hu hstep
  cases e with
  | serialize => exact Option.some.inj hstep ▸ hu
  | tick ρ =>
    obtain ⟨game, -, rfl⟩ := Option.map_eq_some_iff.mp hstep
    exact hu
  | handle ρ draw m =>
    obtain ⟨-, rfl⟩ := AtomicHost.handle_eq_some.mp hstep
    intro r hr
    rcases List.mem_append.mp hr with hr | hr
    · exact hu r hr
    · rcases handleMessage_replies ρ draw u.game m [] with hnone | ⟨id, hping⟩ | hwelcome
      · rw [Game.serve, hnone] at hr
        cases hr
      · rw [Game.serve, hping] at hr
        obtain rfl := List.mem_singleton.mp hr
        simp
      · rw [Game.serve, hwelcome] at hr
        rcases List.mem_cons.mp hr with rfl | hr
        · simp
        · obtain rfl := List.mem_singleton.mp hr
          simp

/-- **Nobody is shown himself before he knows who he is.** In every run of the host process in which
the states fit into their fields, and however the bytes arrive at a client to which the frames
attempted for it are written, if only headers are read whole: before the first GAME_STATE with a
player of its id the client has decoded the WELCOME with this id. -/
theorem welcomed_before_seen [DecidableEq (Outgoing D)] (m : GameMap D) (first : ℤ)
    (p : HostProcess D F)
    (hreach : Lts.Reach HostProcess.step HostProcess.StatesFit (.initial m first) p)
    (i : ℕ) (hpos : 0 < i) (hi : i < 65536) (s : Client.Stream)
    (hstream : Lts.Reach Client.Stream.step Client.wholeHeader .initial s)
    (hsent : s.sent <+: (attemptsTo i p.server.server.log).map Payload.body)
    (before : List (List UInt8)) (body : List UInt8) (after : List (List UInt8))
    (hdecoded : s.decoded = before ++ body :: after) (view : Client.GameState)
    (hbody : Client.readReceived.run body = some (.gameState view, []))
    (hseen : ∃ player ∈ view.players, player.id = i) :
    ∃ body' ∈ before, Client.readReceived.run body' = some (.welcome i
      (toWord (Constants.playerRadius : D)) (toWord (Constants.projectileRadius : D)), []) := by
  obtain ⟨hany, htelling⟩ := HostProcess.telling_of_reach hreach
  have hcausal := (Server.causalInv_of_reach (HostProcess.server_of_reach hany)).legal
  obtain ⟨es, a, hrun, hex⟩ := HostProcess.explained_of_reach hany
  have hreplies := (HostProcess.sent_explained hany hex i).1
  rw [messagesTo_individualAttempts] at hreplies
  -- the attempts behind what has been decoded
  obtain ⟨payloads, hfirst, hpayloads⟩ :=
    List.prefix_map_iff.mp ((decoded_of_sent hstream).trans hsent)
  obtain ⟨earlier, others, rfl, rfl, hothers⟩ := List.map_eq_append_iff.mp
    (hpayloads.symm.trans hdecoded)
  obtain ⟨payload, later, rfl, rfl, -⟩ := List.map_eq_cons_iff.mp hothers
  have htype := type_of_gameState hbody
  cases payload with
  | individual message =>
    have hmem : message.content ∈ repliesTo i a.replies := by
      refine hreplies.subset (List.mem_map.mpr ⟨message, List.mem_filterMap.mpr ?_, rfl⟩)
      exact ⟨.individual message, hfirst.subset (by simp), rfl⟩
    obtain ⟨r, hr, hcontent⟩ := List.mem_map.mp hmem
    have hnot := replies_of_run hrun r (List.mem_filter.mp hr).1
    rw [hcontent] at hnot
    exact absurd htype (type_of_reply hnot)
  | everyone b =>
    cases b with
    | none => cases htype
    | some b =>
      obtain ⟨g, hcontent, hfits, hids⟩ :=
        (HostProcess.shown_of_telling htelling hcausal i).of_initial hfirst earlier _ later rfl
      rw [Payload.body, hcontent] at hbody
      have hview := News.Tells.run_body (News.Tells.gameState g hfits)
      obtain rfl : g.clientView = view := by simpa using hview.symm.trans hbody
      obtain ⟨player, hplayer, hid⟩ := hseen
      obtain ⟨q, hq, rfl⟩ := List.mem_map.mp hplayer
      obtain ⟨k, hk, rfl⟩ := List.mem_map.mp hq
      obtain ⟨data, hwelcome⟩ := (hids k hk hid).resolve_left hpos.ne'
      have htold := News.Tells.run_body (News.Tells.welcome (D := D) (F := F) i hi)
      exact ⟨_, List.mem_map_of_mem hwelcome, htold⟩

/-! ## A second client -/

/-- Reading the game is all the send thread does with it. -/
theorem game_of_sendStep {h h' : HostThreads D F} (hstep : h.sendStep = some h') :
    h'.game = h.game := by
  unfold HostThreads.sendStep at hstep
  split at hstep
  case h_2 =>
    split_ifs at hstep
    exact Option.some.inj hstep ▸ rfl
  case h_6 => cases hstep
  all_goals exact Option.some.inj hstep ▸ rfl

theorem exists_shownRun : ∃ p : HostProcess ℝ ℝ,
    Lts.Reach HostProcess.step HostProcess.StatesFit (.initial blankMap 0) p ∧
    (attemptsTo 1 p.server.server.log).map Payload.body = joinedBodies := by
  obtain ⟨u, p, hu, hgame, hp, hbodies⟩ := exists_shown
  refine ⟨p, .trans (.of_along hu ?_) (.of_along hp ?_), hbodies⟩
  · refine Lts.along_iff_forall.mpr fun pre l post v hsplit _ => ?_
    have hl : l ∈ joinedRun := hsplit ▸ by simp
    simp only [joinedRun, List.mem_append, List.mem_replicate, List.mem_cons, List.not_mem_nil,
      or_false] at hl
    rcases hl with (rfl | rfl | rfl | rfl) | ⟨-, rfl⟩ <;> trivial
  · have hshown : ∀ l ∈ shownRun, l = .host .send ∨ l = .server (.sender true) := by
      intro l hl
      simpa [shownRun] using hl
    refine Lts.along_iff_forall.mpr fun pre l post v hsplit hrun => ?_
    have hsame : v.host.game = joinedGame := by
      refine Lts.run_invariant (I := fun v => v.host.game = joinedGame) hrun hgame ?_
      intro w l' hl' x hw hstep
      rcases hshown l' (by rw [hsplit]; simp [hl']) with rfl | rfl
      · exact (game_of_sendStep (HostProcess.step_host hstep).1).trans hw
      · simp only [HostProcess.step] at hstep
        split_ifs at hstep
        obtain ⟨server, -, rfl⟩ := Option.map_eq_some_iff.mp hstep
        exact hw
    rcases hshown l (by rw [hsplit]; simp) with rfl | rfl
    · intro _
      rw [hsame]
      exact fits_joinedGame
    · trivial

theorem welcomed_before_seen_joined : ∃ p s before body view,
    Lts.Reach HostProcess.step HostProcess.StatesFit
      (.initial blankMap 0 : HostProcess ℝ ℝ) p ∧
    Lts.run Client.Stream.step joinedStream .initial = some s ∧
    s.sent = (attemptsTo 1 p.server.server.log).map Payload.body ∧
    s.decoded = before ++ [body] ∧
    Client.readReceived.run body = some (.gameState view, []) ∧
    (∃ player ∈ view.players, player.id = 1) ∧
    ∃ body' ∈ before, Client.readReceived.run body' = some (.welcome 1
      (toWord (Constants.playerRadius : ℝ)) (toWord (Constants.projectileRadius : ℝ)), []) := by
  obtain ⟨p, hreach, hbodies⟩ := exists_shownRun
  obtain ⟨s, hrun, hsent, hdecoded⟩ := run_joinedStream
  have hview := News.Tells.run_body (.gameState joinedGame fits_joinedGame)
  have hseen : ∃ player ∈ joinedGame.clientView.players, player.id = 1 :=
    ⟨_, List.mem_singleton_self _, rfl⟩
  refine ⟨p, s, joinedBodies.take 2, _, _, hreach, hrun, hsent.trans hbodies.symm, hdecoded, hview,
    hseen, ?_⟩
  exact welcomed_before_seen blankMap 0 p hreach 1 (by decide) (by decide) s
    (.of_along hrun along_joinedStream) (by rw [hsent, hbodies]) _ _ [] hdecoded _ hview hseen

end PRShooter
