import PRShooter.Roster
import PRShooter.GameStateCodec
import PRShooter.Receive

/-!
# The ids of the players

A client id is an index into `threads.clients`, which only grows. `sendWelcomeMessage` and
`serializeGameState` each narrow it to 16 bits: what a client decodes from its WELCOME is always the
id of its own entry in a GAME_STATE, but after 65536 connections it may be that of another client as
well (`playerIds_of_run`).
-/

set_option linter.unusedSectionVars false

namespace PRShooter

open LittleEndian

/-! ## What the client decodes -/

section Decoding

variable {D F : Type} [ToWord 64 D] [ToWord 32 F]

/-- What the client reads of a player. -/
def Player.narrowedView (p : Player D F) : Client.Player :=
  { p.clientView with id := p.playerId % 65536 }

theorem reads_readPlayer_mod (p : Player D F) :
    Reads Client.readPlayer (encodePlayer p) p.narrowedView :=
  (reads_readInt_mod 2 p.playerId).bind <| (reads_readBool _).bind <|
    (reads_readInt p.health.toNat_lt).bind <| (reads_readPoint _).bind <|
    (reads_readPoint _).bind <| (reads_readFloat _).bind <|
    (reads_readInt p.kills.toNat_lt).bind (reads_readInt p.deaths.toNat_lt).map

theorem takes_readInt (n : ℕ) : Takes (Client.readInt n) n := (takes_take n).map value

theorem takes_readDouble : Takes Client.readDouble 8 := by
  intro bs hbs
  have hlen : (bs.take 8).length = 8 := by
    rw [List.length_take]
    omega
  refine ⟨BitVec.ofNat 64 (value (bs.take 8)), ?_⟩
  show (if (bs.take 8).length = 8 then Pure.pure _ else failure : Reader _).run (bs.drop 8) = _
  rw [if_pos hlen]
  rfl

theorem takes_readPoint : Takes Client.readPoint 16 :=
  takes_readDouble.bind fun _ => takes_readDouble.map _

theorem takes_readProjectile : Takes Client.readProjectile 34 :=
  (takes_readInt 2).bind fun _ => takes_readPoint.bind fun _ => takes_readPoint.map _

theorem reads_welcomeMessage [NatCast D] (c : ℕ) :
    Reads Client.readReceived (welcomeMessage D c).written
      (.welcome (c % 65536) (toWord (Constants.playerRadius : D))
        (toWord (Constants.projectileRadius : D))) := by
  have hbytes : (welcomeMessage D c).written = bytes 1 DataType.welcomeMessage.toNat ++
      (bytes 2 c ++ (bytes 8 (toWord (Constants.playerRadius : D) : BitVec 64).toNat ++
        bytes 8 (toWord (Constants.projectileRadius : D) : BitVec 64).toNat)) := by
    simp [welcomeMessage, Buffer.new, Buffer.copyDouble, Buffer.copyToBuf]
  rw [hbytes]
  exact (reads_readInt (by decide)).bind <| (reads_readInt_mod 2 c).bind <|
    (reads_readDouble _).bind (reads_readDouble _).map

/-- The client can read every GAME_STATE. It finds the first players, as many as the header
counts. -/
theorem run_serializeGameState (g : Game D F) : ∃ state rest,
    Client.readReceived.run (serializeGameState g).written = some (.gameState state, rest) ∧
      state.players =
        (g.playerList.take (g.playerList.length % 65536)).map Player.narrowedView := by
  set n := g.playerList.length % 65536 with hn
  set m := g.projectiles.length % 65536 with hm
  have hplayers : (UInt16.ofNat g.playerList.length).toNat = n := by simp [hn]
  have hprojectiles : (UInt16.ofNat g.projectiles.length).toNat = m := by simp [hm]
  have hcount : (g.playerList.take n).length = n := by
    rw [List.length_take, hn]
    omega
  have hsplit : g.playerList.flatMap encodePlayer =
      (g.playerList.take n).flatMap encodePlayer ++ (g.playerList.drop n).flatMap encodePlayer := by
    rw [← List.flatMap_append, List.take_append_drop]
  have hfirst := Reads.replicate encodePlayer Player.narrowedView (g.playerList.take n)
    fun p _ => reads_readPlayer_mod p
  rw [hcount] at hfirst
  -- what is left are at least as many bytes as there are projectiles in the header
  let left := (g.playerList.drop n).flatMap encodePlayer ++ g.projectiles.flatMap encodeProjectile
  obtain ⟨projectiles, hlast⟩ := (takes_readProjectile.replicate m) left (by
    rw [List.length_append, length_flatMap_const length_encodeProjectile, hm]
    omega)
  have hbody : Client.getGamestateFromBytes.run (bytes 2 n ++ (bytes 2 m ++
      ((g.playerList.take n).flatMap encodePlayer ++ left))) =
        some (⟨(g.playerList.take n).map Player.narrowedView, projectiles⟩, left.drop (34 * m)) := by
    rw [Client.getGamestateFromBytes, (reads_readInt (by omega)).run_bind,
      (reads_readInt (by omega)).run_bind, hfirst.run_bind, StateT.run_bind, hlast]
    rfl
  refine ⟨⟨(g.playerList.take n).map Player.narrowedView, projectiles⟩, left.drop (34 * m), ?_, rfl⟩
  rw [serializeGameState_append, hplayers, hprojectiles, hsplit]
  simp only [Buffer.append, Buffer.new, List.nil_append, List.append_assoc]
  unfold Client.readReceived
  rw [(reads_readInt (by decide)).run_bind]
  show (Client.getGamestateFromBytes >>= fun state =>
    (Pure.pure (Client.Received.gameState state) : Reader Client.Received)).run _ = _
  rw [StateT.run_bind, hbody]
  rfl

end Decoding

/-! ## The host and its clients -/

/-- The receiver has pushed LOST_CONNECTION, or there is none. -/
def Receiver.isClosed : Receiver → Bool
  | .closed => true
  | _ => false

/-- The size of `threads.clients`, the receivers and their queue, how many of the events that `take`
has returned have been handled, the game and what has been handed to `Server::sendMessageTo`. `met`
are the pairs of clients that were connected at the same time, `own` the clients whose entry is the
one `createNewPlayer` made. -/
structure Lobby (D F : Type) where
  clients : ℕ
  inbox : Inbox
  handled : ℕ
  game : Game D F
  sent : List (Outgoing D × ℕ)
  met : List (ℕ × ℕ)
  own : List ℕ

inductive LobbyLabel where
  | addClient (created : Bool)
  | inbox (label : InboxLabel)
  /-- `handleMessage` of the event that was taken last. -/
  | handle (ρ : Rehash ℕ) (draw : ℤ × ℤ)
  | tick (ρ : Rehash ℕ)

namespace Lobby

variable {D F : Type} [Zero D] [One D] [Zero F] [NatCast D] [IntCast D] [OfScientific D] [Add D]
  [Sub D] [Mul D] [Div D] [Neg D] [LT D] [LE D] [DecidableLT D] [DecidableLE D] [HasSqrt D]

def initial (m : GameMap D) : Lobby D F := ⟨0, .initial, 0, Game.initial m, [], [], []⟩

/-- The clients that are connected. -/
def connected (s : Lobby D F) : List ℕ :=
  (List.range s.clients).filter fun c => !(s.inbox.receiver c).isClosed

/-- A receiver starts after `addClient`, the host takes an event when it has handled the last. -/
def permits (s : Lobby D F) : InboxLabel → Bool
  | .start c => c < s.clients
  | .take | .wake | .timeout => s.handled = s.inbox.returned.length
  | .recv _ _ | .push _ | .disconnect _ => true

/-- `addClient`: the index of the new record is the id. -/
def addClient (s : Lobby D F) (created : Bool) : Lobby D F :=
  { s with
    clients := s.clients + 1
    inbox := if created then s.inbox else s.inbox.setReceiver s.clients .closed
    met := if created then s.met ++ s.connected.map (·, s.clients) else s.met }

/-- The clients with an entry of their own after an event. -/
def record (own : List ℕ) (m : IncomingMessage) : List ℕ :=
  match m.messageType with
  | .newConnection => m.clientId :: own
  | .lostConnection => own.filter (· ≠ m.clientId)
  | .message | .empty => own

variable [Trig F D] [OfWord 64 D] [OfWord 32 F]

/-- `handleMessage`. -/
def handle (s : Lobby D F) (ρ : Rehash ℕ) (draw : ℤ × ℤ) (m : IncomingMessage) : Lobby D F :=
  let result := ((handleMessage ρ draw s.game m).run []).1
  { s with
    handled := s.handled + 1
    game := result.1
    sent := s.sent ++ result.2
    own := record s.own m }

/-- One step. -/
def step (s : Lobby D F) : LobbyLabel → Option (Lobby D F)
  | .addClient created => some (s.addClient created)
  | .inbox label =>
    if s.permits label then (s.inbox.step label).map fun inbox => { s with inbox } else none
  | .handle ρ draw => s.inbox.returned[s.handled]?.map (s.handle ρ draw)
  | .tick ρ => (PRShooter.tick ρ s.game).map fun game => { s with game }

/-- No client that is connected has the same id up to 16 bits as the one that connects. -/
def FreshId (s : Lobby D F) : LobbyLabel → Prop
  | .addClient true => ∀ c ∈ s.connected, c % 65536 ≠ s.clients % 65536
  | _ => True

section Ids

variable [ToWord 64 D] [ToWord 32 F]

/-- Client `c` is sent a WELCOME from which it decodes `id`. -/
def Welcomed (s : Lobby D F) (c id : ℕ) : Prop :=
  ∃ playerId, (.welcome playerId, c) ∈ s.sent ∧ ∃ playerRadius projectileRadius,
    Client.readReceived.run (Outgoing.welcome playerId : Outgoing D).buffer.written =
      some (.welcome id playerRadius projectileRadius, [])

/-- Clients that were connected at the same time are sent different ids. -/
def IdsDistinct (s : Lobby D F) : Prop :=
  ∀ c d, (c, d) ∈ s.met → ∀ id id', s.Welcomed c id → s.Welcomed d id' → id ≠ id'

/-- What a client decodes from its WELCOME is the id it decodes for its own entry, in a GAME_STATE
serialized now. -/
def OwnIds (s : Lobby D F) : Prop :=
  ∀ c ∈ s.own, ∀ id, s.Welcomed c id → ∃ state rest i,
    Client.readReceived.run (serializeGameState s.game).written = some (.gameState state, rest) ∧
      s.game.players.keys[i]? = some c ∧
      (∀ player, state.players[i]? = some player → player.id = id) ∧
      (s.game.players.keys.length < 65536 → i < state.players.length)

end Ids

end Lobby

/-! ## The id of an entry -/

section Entries

variable {D F : Type}

/-- Every entry is still there, with its id. -/
def KeepsIds (players players' : UMap ℕ (Player D F)) : Prop :=
  ∀ k ∈ players.keys, k ∈ players'.keys ∧ (players'.val k).playerId = (players.val k).playerId

namespace KeepsIds

variable {players players' players'' : UMap ℕ (Player D F)}

theorem refl (players : UMap ℕ (Player D F)) : KeepsIds players players := fun _ hk => ⟨hk, rfl⟩

theorem trans (h : KeepsIds players players') (h' : KeepsIds players' players'') :
    KeepsIds players players'' := by
  intro k hk
  obtain ⟨hk', hid⟩ := h k hk
  obtain ⟨hk'', hid'⟩ := h' k hk'
  exact ⟨hk'', hid'.trans hid⟩

theorem set {k : ℕ} {p : Player D F} (h : p.playerId = (players.val k).playerId) :
    KeepsIds players (players.set k p) := by
  intro j hj
  refine ⟨hj, ?_⟩
  rw [UMap.val_set]
  split_ifs with hjk
  · rw [hjk, h]
  · rfl

theorem index (ρ : Rehash ℕ) (players : UMap ℕ (Player D F)) (k : ℕ) (p : Player D F) :
    KeepsIds players (players.index ρ k p) := by
  intro j hj
  refine ⟨(UMap.mem_keys_index ρ players p).mpr (.inr hj), ?_⟩
  rw [UMap.val_index, if_neg]
  rintro ⟨rfl, hk⟩
  exact hk hj

end KeepsIds

variable [Zero D] [One D] [Zero F] [NatCast D] [IntCast D] [OfScientific D] [Add D] [Sub D] [Mul D]
  [Div D] [Neg D] [LT D] [LE D] [DecidableLT D] [DecidableLE D] [HasSqrt D]

theorem keepsIds_damagePlayer (ρ : Rehash ℕ) (players : UMap ℕ (Player D F)) (ownerId k : ℕ) :
    KeepsIds players (damagePlayer ρ players ownerId k) := by
  simp only [damagePlayer]
  split_ifs
  · have hdeath : KeepsIds players (players.set k
        { players.val k with alive := false, deaths := (players.val k).deaths + 1 }) := .set rfl
    exact (hdeath.trans (.index ρ _ ownerId _)).trans (.set rfl)
  · exact .set rfl

theorem keepsIds_checkProjectileCollisions {ρ : Rehash ℕ} {m : GameMap D}
    {players players' : UMap ℕ (Player D F)} {p : Projectile D} {hit : Bool}
    (h : checkProjectileCollisions ρ m players p = some (hit, players')) :
    KeepsIds players players' := by
  rcases players_of_checkProjectileCollisions h with rfl | ⟨-, k, -, rfl⟩
  · exact .refl players'
  · exact keepsIds_damagePlayer ρ players p.ownerId k

theorem keepsIds_projectileLoop {ρ : Rehash ℕ} {m : GameMap D} {ps : List (Projectile D)}
    {players players' : UMap ℕ (Player D F)} {left : List (Projectile D)}
    (h : projectileLoop ρ m players ps = some (players', left)) : KeepsIds players players' :=
  projectileLoop_rel .refl .trans keepsIds_checkProjectileCollisions h

theorem keepsIds_tick {ρ : Rehash ℕ} {g g' : Game D F} (h : tick ρ g = some g') :
    KeepsIds g.players g'.players := by
  obtain ⟨players, players', projectiles, hplayers, hloop, rfl⟩ := tick_eq_some.mp h
  have hmoved : SameIds g.players players :=
    .of_onlyCentres ((onlyCentres_updatePositions g).trans
      (onlyCentres_checkPlayerCollisions hplayers))
  have hcentres : KeepsIds g.players players := fun k hk => ⟨hmoved.1 ▸ hk, hmoved.2 k⟩
  exact hcentres.trans (keepsIds_projectileLoop hloop)

theorem keepsIds_apply [Trig F D] (ρ : Rehash ℕ) (draw : ℤ × ℤ) (g : Game D F) (c : ℕ)
    (op : ClientOp D F) : KeepsIds g.players (op.apply ρ draw g c).1.players := by
  have hindex : KeepsIds g.players (g.indexPlayer ρ c).players := .index ρ _ c _
  cases op with
  | spawn =>
    simp only [ClientOp.apply, spawnPlayer]
    split_ifs
    · exact hindex.trans (.set rfl)
    · exact hindex
  | shoot =>
    simp only [ClientOp.apply, shootProjectile]
    split_ifs <;> exact hindex
  | changeOrientation angle => exact hindex.trans (.set rfl)
  | changeMovementDirection velocityX velocityY =>
    simp only [ClientOp.apply, changePlayerMovement]
    split_ifs
    · exact hindex.trans (.set rfl)
    · exact .refl _
  | ping id => exact .refl _
  | unknown => exact .refl _

end Entries

/-! ## Every run -/

namespace Lobby

variable {D F : Type} [Zero D] [One D] [Zero F] [NatCast D] [IntCast D] [OfScientific D] [Add D]
  [Sub D] [Mul D] [Div D] [Neg D] [LT D] [LE D] [DecidableLT D] [DecidableLE D] [HasSqrt D]
  [Trig F D] [OfWord 64 D] [OfWord 32 F] {s t : Lobby D F} {l : LobbyLabel}

/-- A WELCOME goes to the client it names, and an entry that `createNewPlayer` made has the id of
its client. -/
structure Inv (s : Lobby D F) : Prop where
  sent : ∀ playerId c, (.welcome playerId, c) ∈ s.sent → playerId = c
  own : ∀ c ∈ s.own, c ∈ s.game.players.keys ∧ (s.game.players.val c).playerId = c

theorem inv_initial (m : GameMap D) : (initial m : Lobby D F).Inv :=
  ⟨fun _ _ h => absurd h List.not_mem_nil, fun _ h => absurd h List.not_mem_nil⟩

/-- The entries stay, whatever is added to them. -/
theorem Inv.own_of_keepsIds (h : s.Inv) {players : UMap ℕ (Player D F)}
    (hkeeps : KeepsIds s.game.players players) (c : ℕ) (hc : c ∈ s.own) :
    c ∈ players.keys ∧ (players.val c).playerId = c := by
  obtain ⟨hkey, hid⟩ := h.own c hc
  obtain ⟨hkey', hid'⟩ := hkeeps c hkey
  exact ⟨hkey', hid'.trans hid⟩

theorem sent_handle (h : s.Inv) (ρ : Rehash ℕ) (draw : ℤ × ℤ) (m : IncomingMessage)
    (playerId c : ℕ) (hsent : (.welcome playerId, c) ∈ (s.handle ρ draw m).sent) :
    playerId = c := by
  rcases List.mem_append.mp hsent with hold | hnew
  · exact h.sent playerId c hold
  · rcases handleMessage_replies ρ draw s.game m [] with hnone | ⟨id, hping⟩ | hwelcome
    · rw [hnone] at hnew
      cases hnew
    · rw [hping] at hnew
      simp at hnew
    · rw [hwelcome] at hnew
      simp at hnew
      exact hnew.1.trans hnew.2.symm

theorem own_handle (h : s.Inv) (ρ : Rehash ℕ) (draw : ℤ × ℤ) (m : IncomingMessage) (c : ℕ)
    (hc : c ∈ (s.handle ρ draw m).own) : c ∈ (s.handle ρ draw m).game.players.keys ∧
      ((s.handle ρ draw m).game.players.val c).playerId = c := by
  obtain ⟨type, d, payload⟩ := m
  cases type with
  | empty => exact h.own c hc
  | newConnection =>
    show c ∈ (s.game.players.insert ρ d (Player.new d)).keys ∧
      ((s.game.players.insert ρ d (Player.new d)).val c).playerId = c
    rw [UMap.mem_keys_insert, UMap.val_insert]
    rcases eq_or_ne c d with rfl | hcd
    · exact ⟨.inl rfl, by rw [if_pos rfl]; rfl⟩
    · obtain ⟨hkey, hid⟩ := h.own c ((List.mem_cons.mp hc).resolve_left hcd)
      exact ⟨.inr hkey, by rw [if_neg hcd, hid]⟩
  | lostConnection =>
    obtain ⟨hold, hcd⟩ := List.mem_filter.mp hc
    obtain ⟨hkey, hid⟩ := h.own c hold
    exact ⟨(UMap.mem_keys_erase _).mpr ⟨by simpa using hcd, hkey⟩, hid⟩
  | message =>
    have hrun := run_handleMessage_message ρ draw s.game d payload
    have hgame : (s.handle ρ draw ⟨.message, d, payload⟩).game =
        (((payload.readOp : Reading (ClientOp D F)).run []).1.apply ρ draw s.game d).1 := by
      simp only [handle, hrun]
    rw [hgame]
    exact h.own_of_keepsIds (keepsIds_apply ρ draw s.game d _) c hc

theorem inv_step (h : s.Inv) (hstep : s.step l = some t) : t.Inv := by
  cases l with
  | addClient created =>
    obtain rfl := Option.some.inj hstep
    exact ⟨h.sent, h.own⟩
  | inbox label =>
    simp only [step] at hstep
    split_ifs at hstep
    obtain ⟨inbox, -, rfl⟩ := Option.map_eq_some_iff.mp hstep
    exact ⟨h.sent, h.own⟩
  | handle ρ draw =>
    obtain ⟨m, -, rfl⟩ := Option.map_eq_some_iff.mp hstep
    exact ⟨sent_handle h ρ draw m, own_handle h ρ draw m⟩
  | tick ρ =>
    obtain ⟨game, hgame, rfl⟩ := Option.map_eq_some_iff.mp hstep
    exact ⟨h.sent, h.own_of_keepsIds (keepsIds_tick hgame)⟩

/-! ## Which clients meet -/

/-- No two clients that met have the same id up to 16 bits. -/
def MetFresh (s : Lobby D F) : Prop := ∀ c d, (c, d) ∈ s.met → c % 65536 ≠ d % 65536

/-- A client that connects meets those that are connected; no other step makes clients meet. -/
theorem met_step (hstep : s.step l = some t) :
    (l = .addClient true ∧ t.met = s.met ++ s.connected.map (·, s.clients)) ∨
      (l ≠ .addClient true ∧ t.met = s.met) := by
  cases l with
  | addClient created =>
    obtain rfl := Option.some.inj hstep
    cases created with
    | false => exact .inr ⟨by simp, rfl⟩
    | true => exact .inl ⟨rfl, rfl⟩
  | inbox label =>
    simp only [step] at hstep
    split_ifs at hstep
    obtain ⟨inbox, -, rfl⟩ := Option.map_eq_some_iff.mp hstep
    exact .inr ⟨LobbyLabel.noConfusion, rfl⟩
  | handle ρ draw =>
    obtain ⟨m, -, rfl⟩ := Option.map_eq_some_iff.mp hstep
    exact .inr ⟨LobbyLabel.noConfusion, rfl⟩
  | tick ρ =>
    obtain ⟨game, -, rfl⟩ := Option.map_eq_some_iff.mp hstep
    exact .inr ⟨LobbyLabel.noConfusion, rfl⟩

theorem metFresh_step (h : s.MetFresh) (hok : s.FreshId l) (hstep : s.step l = some t) :
    t.MetFresh := by
  intro c d hmet
  rcases met_step hstep with ⟨rfl, hmore⟩ | ⟨-, hsame⟩
  · rw [hmore] at hmet
    rcases List.mem_append.mp hmet with hold | hnew
    · exact h c d hold
    · obtain ⟨c', hc', hpair⟩ := List.mem_map.mp hnew
      obtain ⟨rfl, rfl⟩ := Prod.mk.inj hpair
      exact hok _ hc'
  · exact h c d (hsame ▸ hmet)

theorem met_subset (hstep : s.step l = some t) : s.met ⊆ t.met := by
  rcases met_step hstep with ⟨-, hmore⟩ | ⟨-, hsame⟩
  · rw [hmore]
    exact List.subset_append_left _ _
  · rw [hsame]
    exact List.Subset.refl _

theorem freshId_of_metFresh (hstep : s.step l = some t) (h : t.MetFresh) : s.FreshId l := by
  cases l with
  | addClient created =>
    cases created with
    | false => trivial
    | true =>
      rcases met_step hstep with ⟨-, hmore⟩ | ⟨hnot, -⟩
      · intro c hc
        refine h c s.clients ?_
        rw [hmore]
        exact List.mem_append_right _ (List.mem_map_of_mem hc)
      · exact absurd rfl hnot
  | inbox | handle | tick => trivial

/-- The clients that met have different ids exactly when each of them connected with a fresh one. -/
theorem metFresh_iff_along {m : GameMap D} {ls : List LobbyLabel}
    (h : Lts.run step ls (initial m : Lobby D F) = some t) :
    t.MetFresh ↔ Lts.Along step FreshId ls (initial m : Lobby D F) := by
  constructor
  · intro hmet
    rw [Lts.along_iff_forall]
    intro pre l post u hls hu
    rw [hls, Lts.run_append, hu, Option.bind_some, Lts.run_cons] at h
    obtain ⟨v, hv, hrest⟩ := Option.bind_eq_some_iff.mp h
    have hsub : v.met ⊆ t.met :=
      Lts.run_invariant (I := fun w => v.met ⊆ w.met) hrest (List.Subset.refl _)
        fun _ _ _ _ hw hstep => List.Subset.trans hw (met_subset hstep)
    exact freshId_of_metFresh hv fun c d hcd => hmet c d (hsub hcd)
  · intro halong
    have hreach : Lts.Reach step FreshId (initial m : Lobby D F) t := .of_along h halong
    exact hreach.invariant (I := MetFresh) (fun _ _ hcd => absurd hcd List.not_mem_nil)
      fun _ _ _ hI hok hstep => metFresh_step hI hok hstep

section Ids

variable [ToWord 64 D] [ToWord 32 F]

theorem Inv.welcomed (h : s.Inv) {c id : ℕ} (hid : s.Welcomed c id) : id = c % 65536 := by
  obtain ⟨playerId, hsent, playerRadius, projectileRadius, hrun⟩ := hid
  have hread := reads_welcomeMessage (D := D) playerId []
  rw [List.append_nil] at hread
  have heq := Option.some.inj (hrun.symm.trans hread)
  rw [h.sent playerId c hsent] at heq
  exact (Client.Received.welcome.inj (Prod.mk.inj heq).1).1

theorem Inv.ownIds (h : s.Inv) : s.OwnIds := by
  intro c hc id hid
  obtain rfl := h.welcomed hid
  obtain ⟨hkey, hplayerId⟩ := h.own c hc
  obtain ⟨state, rest, hrun, hplayers⟩ := run_serializeGameState s.game
  obtain ⟨i, hi⟩ := List.mem_iff_getElem?.mp hkey
  have hlen : s.game.playerList.length = s.game.players.keys.length := by simp [Game.playerList]
  refine ⟨state, rest, i, hrun, hi, fun player hplayer => ?_, fun hfew => ?_⟩
  · rw [hplayers, List.getElem?_map, List.getElem?_take] at hplayer
    obtain ⟨p, hp, rfl⟩ := Option.map_eq_some_iff.mp hplayer
    split_ifs at hp
    have hval : s.game.players.val c = p := by
      simpa [Game.playerList, List.getElem?_map, hi] using hp
    rw [← hval]
    show (s.game.players.val c).playerId % 65536 = c % 65536
    rw [hplayerId]
  · have hlt := (List.getElem?_eq_some_iff.mp hi).1
    rw [hplayers, List.length_map, List.length_take, hlen, Nat.mod_eq_of_lt hfew]
    omega

/-- **Player ids.** In a run in which no client connects with the id, up to 16 bits, of one that is
connected, clients that were connected at the same time are sent different ids, and if all of them
have been sent one, only in such a run. In every run the id in the WELCOME is the one in the own
entry of every GAME_STATE. -/
theorem playerIds_of_run (m : GameMap D) (ls : List LobbyLabel) (t : Lobby D F)
    (h : Lts.run step ls (initial m) = some t) :
    (Lts.Along step FreshId ls (initial m : Lobby D F) → t.IdsDistinct) ∧
    ((∀ c d, (c, d) ∈ t.met → (∃ id, t.Welcomed c id) ∧ ∃ id, t.Welcomed d id) →
      t.IdsDistinct → Lts.Along step FreshId ls (initial m : Lobby D F)) ∧
    t.OwnIds := by
  have hinv : t.Inv := Lts.run_invariant (I := Inv) h (inv_initial m)
    fun _ _ _ _ hI hstep => inv_step hI hstep
  rw [← metFresh_iff_along h]
  refine ⟨fun hmet c d hcd id id' hid hid' => ?_, fun hall hdistinct c d hcd => ?_, hinv.ownIds⟩
  · rw [hinv.welcomed hid, hinv.welcomed hid']
    exact hmet c d hcd
  · obtain ⟨⟨id, hid⟩, id', hid'⟩ := hall c d hcd
    have hne := hdistinct c d hcd id id' hid hid'
    rwa [hinv.welcomed hid, hinv.welcomed hid'] at hne

end Ids

/-! ## A long run -/

/-- A client connects, and the host sends it a WELCOME. -/
def join (c : ℕ) : List LobbyLabel :=
  [.addClient true, .inbox (.start c), .inbox .take, .handle Rehash.front (0, 0)]

/-- A client leaves, and the host deletes its player. -/
def leave (c : ℕ) : List LobbyLabel :=
  [.inbox (.disconnect c), .inbox .take, .handle Rehash.front (0, 0)]

theorem handle_newConnection (s : Lobby D F) (ρ : Rehash ℕ) (draw : ℤ × ℤ) (c : ℕ) :
    s.handle ρ draw (newConnectionEvent c) = { s with
      handled := s.handled + 1
      game := createNewPlayer ρ s.game c
      sent := s.sent ++ [(.welcome c, c), (.map s.game.gameMap, c)]
      own := c :: s.own } := rfl

theorem handle_lostConnection (s : Lobby D F) (ρ : Rehash ℕ) (draw : ℤ × ℤ) (c : ℕ) :
    s.handle ρ draw (lostConnectionEvent c) = { s with
      handled := s.handled + 1
      game := deletePlayer s.game c
      sent := s.sent ++ []
      own := s.own.filter (· ≠ c) } := rfl

/-- Client `n` is the next to connect, and every event has been handled. -/
structure Settled (s : Lobby D F) (n : ℕ) : Prop where
  clients : s.clients = n
  queue : s.inbox.queue = []
  waiting : s.inbox.waiting = false
  handled : s.handled = s.inbox.returned.length
  receivers : ∀ c, n ≤ c → s.inbox.receiver c = .notStarted

theorem run_join {n : ℕ} (h : s.Settled n) : ∃ t, Lts.run step (join n) s = some t ∧
    t.Settled (n + 1) ∧ t.inbox.receiver = Function.update s.inbox.receiver n .polling ∧
    t.sent = s.sent ++ [(.welcome n, n), (.map s.game.gameMap, n)] ∧
    t.met = s.met ++ s.connected.map (·, n) := by
  obtain ⟨clients, ⟨queue, receiver, waiting, received, returned⟩, handled, game, sent, met, own⟩ := s
  obtain ⟨hclients, hqueue, hwaiting, hhandled, hreceivers⟩ := h
  dsimp only at hclients hqueue hwaiting hhandled hreceivers
  subst hclients hqueue hwaiting hhandled
  have hnext := hreceivers clients le_rfl
  refine ⟨{
    clients := clients + 1
    inbox := ⟨[], Function.update receiver clients .polling, false, received,
      returned ++ [newConnectionEvent clients]⟩
    handled := returned.length + 1
    game := createNewPlayer Rehash.front game clients
    sent := sent ++ [(.welcome clients, clients), (.map game.gameMap, clients)]
    met := _
    own := clients :: own }, ?_, ⟨rfl, rfl, rfl, ?_, fun c hc => ?_⟩, rfl, rfl, rfl⟩
  · simp [join, step, addClient, permits, Inbox.step, hnext, Inbox.setReceiver, Inbox.takeFront,
      queueSyncPushBack, queueSyncPopFront, handle_newConnection]
  · simp
  · have hne : c ≠ clients := by omega
    simpa [hne] using hreceivers c (by omega)

theorem run_leave {n c : ℕ} (h : s.Settled n) (hc : c < n) (hpolling : s.inbox.receiver c = .polling) :
    ∃ t, Lts.run step (leave c) s = some t ∧ t.Settled n ∧
      t.inbox.receiver = Function.update s.inbox.receiver c .closed ∧ t.sent = s.sent := by
  obtain ⟨clients, ⟨queue, receiver, waiting, received, returned⟩, handled, game, sent, met, own⟩ := s
  obtain ⟨hclients, hqueue, hwaiting, hhandled, hreceivers⟩ := h
  dsimp only at hclients hqueue hwaiting hhandled hreceivers hpolling
  subst hclients hqueue hwaiting hhandled
  refine ⟨{
    clients := clients
    inbox := ⟨[], Function.update receiver c .closed, false, received,
      returned ++ [lostConnectionEvent c]⟩
    handled := returned.length + 1
    game := deletePlayer game c
    sent := sent
    met := met
    own := own.filter (· ≠ c) }, ?_, ⟨rfl, rfl, rfl, ?_, fun d hd => ?_⟩, rfl, rfl⟩
  · simp [leave, step, permits, Inbox.step, hpolling, Inbox.setReceiver, Inbox.takeFront,
      queueSyncPushFront, queueSyncPopFront, handle_lostConnection]
  · simp
  · have hne : d ≠ c := by
      have : c < clients := hc
      have : clients ≤ d := hd
      omega
    simpa [hne] using hreceivers d hd

/-- Client 0 stays while any number of clients come and go. -/
theorem exists_reach_settled (m : GameMap D) (n : ℕ) : ∃ s : Lobby D F,
    Lts.Reach step Lts.Any (initial m) s ∧ s.Settled (n + 1) ∧ s.inbox.receiver 0 = .polling ∧
      (.welcome 0, 0) ∈ s.sent := by
  induction n with
  | zero =>
    have hinitial : (initial m : Lobby D F).Settled 0 := ⟨rfl, rfl, rfl, rfl, fun _ _ => rfl⟩
    obtain ⟨s, hrun, hsettled, hreceiver, hsent, -⟩ := run_join hinitial
    exact ⟨s, .of_run hrun, hsettled, by simp [hreceiver], by simp [hsent]⟩
  | succ n ih =>
    obtain ⟨s, hreach, hsettled, hpolling, hwelcome⟩ := ih
    obtain ⟨t, hjoin, ht, htreceiver, htsent, -⟩ := run_join hsettled
    have hlast : t.inbox.receiver (n + 1) = .polling := by simp [htreceiver]
    obtain ⟨u, hleave, hu, hureceiver, husent⟩ := run_leave ht (Nat.lt_succ_self _) hlast
    refine ⟨u, (hreach.trans (Lts.Reach.of_run hjoin)).trans (Lts.Reach.of_run hleave), hu, ?_, ?_⟩
    · rw [hureceiver, Function.update_of_ne (by omega), htreceiver,
        Function.update_of_ne (by omega), hpolling]
    · rw [husent, htsent]
      exact List.mem_append_left _ hwelcome

variable [ToWord 64 D] [ToWord 32 F]

theorem welcomed_of_mem {c : ℕ} (h : (.welcome c, c) ∈ s.sent) : s.Welcomed c (c % 65536) := by
  have hread := reads_welcomeMessage (D := D) c []
  rw [List.append_nil] at hread
  exact ⟨c, h, _, _, hread⟩

end Lobby

/-- Two clients connect and are sent their ids. -/
theorem playerIds_of_run_two : ∃ t : Lobby ℝ ℝ,
    Lts.run Lobby.step (Lobby.join 0 ++ Lobby.join 1) (Lobby.initial squareMap) = some t ∧
      t.met = [(0, 1)] ∧ t.IdsDistinct ∧ t.OwnIds := by
  have hrun := Lobby.playerIds_of_run squareMap (F := ℝ) (Lobby.join 0 ++ Lobby.join 1) _ rfl
  refine ⟨_, rfl, rfl, hrun.1 ((Lobby.metFresh_iff_along rfl).mp fun c d hmet => ?_), hrun.2.2⟩
  obtain ⟨rfl, rfl⟩ : c = 0 ∧ d = 1 := Prod.mk.inj (List.mem_singleton.mp hmet)
  decide

/-- Client 0 stays while 65535 others come and go; the next one is sent the id of client 0. -/
theorem same_id : ¬ ∀ t : Lobby ℝ ℝ,
    Lts.Reach Lobby.step Lts.Any (Lobby.initial squareMap) t → t.IdsDistinct := by
  intro h
  obtain ⟨s, hreach, hsettled, hpolling, hwelcome⟩ :=
    Lobby.exists_reach_settled (F := ℝ) squareMap 65535
  obtain ⟨t, hjoin, -, -, hsent, hmet⟩ := Lobby.run_join hsettled
  have hconnected : 0 ∈ s.connected := by
    simp [Lobby.connected, hsettled.clients, hpolling, Receiver.isClosed]
  have hpair : (0, 65536) ∈ t.met := by
    rw [hmet]
    exact List.mem_append_right _ (List.mem_map_of_mem hconnected)
  have hzero : t.Welcomed 0 0 := Lobby.welcomed_of_mem (c := 0) (by simp [hsent, hwelcome])
  have hlast : t.Welcomed 65536 0 := Lobby.welcomed_of_mem (c := 65536) (by simp [hsent])
  exact h t (hreach.trans (Lts.Reach.of_run hjoin)) 0 65536 hpair 0 0 hzero hlast rfl

end PRShooter
