import PRShooter.HostLinearization

/-!
# Clients do not see each other's messages between ticks

What the host keeps for a client is its entry of `players`, its projectiles and the replies to it.
A message changes only the part of the client it comes from, in a way that depends on that part and
the map alone. So between two ticks the part of a client is decided by its own messages, and the
order in which the receive thread takes the messages of different clients does not matter.
-/

set_option linter.unusedSectionVars false

namespace PRShooter

variable {D F : Type} [Zero D] [One D] [Zero F] [NatCast D] [IntCast D] [OfScientific D] [Add D]
  [Sub D] [Mul D] [Div D] [Neg D] [LT D] [LE D] [DecidableLT D] [DecidableLE D] [HasSqrt D]
  [Trig F D]

/-! ## The part of a client -/

/-- The projectiles of a client, in the order they were fired. -/
def Game.projectilesOf (g : Game D F) (c : ℕ) : List (Projectile D) :=
  g.projectiles.filter fun p => p.ownerId = c

/-- What has been replied to a client. -/
def repliesOf (replies : List (Outgoing D × ℕ)) (c : ℕ) : List (Outgoing D) :=
  (replies.filter fun r => r.2 = c).map Prod.fst

/-- What the host keeps for one client. -/
structure ClientPart (D F : Type) where
  gameMap : GameMap D
  player : Option (Player D F)
  projectiles : List (Projectile D)
  replies : List (Outgoing D)

def AtomicHost.part (a : AtomicHost D F) (c : ℕ) : ClientPart D F :=
  { gameMap := a.game.gameMap
    player := a.game.players.find? c
    projectiles := a.game.projectilesOf c
    replies := repliesOf a.replies c }

/-- The event is not a tick. -/
def HostEvent.NoTick : HostEvent → Prop
  | .tick _ => False
  | .handle .. | .serialize => True

instance : (e : HostEvent) → Decidable e.NoTick
  | .tick _ => .isFalse id
  | .handle .. | .serialize => .isTrue trivial

/-- A message of the client, with the draw it would be spawned at. -/
def HostEvent.own (c : ℕ) : HostEvent → Option ((ℤ × ℤ) × IncomingMessage)
  | .handle _ draw m => if m.clientId = c then some (draw, m) else none
  | .tick _ | .serialize => none

/-! ## The operations on the entry of a client -/

/-- The entry `players[player_id]` leads to. -/
def Game.entry (g : Game D F) (c : ℕ) : Player D F := (g.players.find? c).getD (Player.new 0)

section Entries

variable (ρ : Rehash ℕ) (g : Game D F) (d c : ℕ)

theorem val_indexPlayer : (g.indexPlayer ρ d).players.val d = g.entry d :=
  UMap.val_index_self ρ g.players d _

theorem find?_indexPlayer : (g.indexPlayer ρ d).players.find? c =
    if c = d then some (g.entry d) else g.players.find? c :=
  UMap.find?_index ρ g.players d c _

theorem find?_setPlayer_indexPlayer (p : Player D F) :
    ((g.indexPlayer ρ d).setPlayer d p).players.find? c =
      if c = d then some p else g.players.find? c := by
  have hkey : d ∈ (g.indexPlayer ρ d).players.keys := UMap.self_mem_keys_index ρ g.players d _
  rw [Game.setPlayer, UMap.find?_set, find?_indexPlayer]
  split_ifs with h <;> simp_all

theorem find?_spawnPlayer (draw : ℤ × ℤ) : (spawnPlayer ρ g d draw).players.find? c =
    if c = d then some (if (g.entry d).alive = false then
      { g.entry d with alive := true, health := 100, centre := drawnPoint draw } else g.entry d)
    else g.players.find? c := by
  simp only [spawnPlayer, val_indexPlayer]
  split_ifs with halive hc hc
  · rw [find?_setPlayer_indexPlayer, if_pos hc]
  · rw [find?_setPlayer_indexPlayer, if_neg hc]
  · rw [find?_indexPlayer, if_pos hc]
  · rw [find?_indexPlayer, if_neg hc]

theorem find?_shootProjectile : (shootProjectile ρ g d).players.find? c =
    if c = d then some (g.entry d) else g.players.find? c := by
  simp only [shootProjectile]
  split_ifs with halive hc hc
  all_goals simp only [find?_indexPlayer, hc, if_true, if_false]

theorem projectiles_shootProjectile : (shootProjectile ρ g d).projectiles =
    g.projectiles ++ if (g.entry d).alive = false then [] else [(g.entry d).projectile d] := by
  simp only [shootProjectile, val_indexPlayer]
  split_ifs with halive
  · exact (List.append_nil _).symm
  · rfl

end Entries

/-! ## One operation -/

section Operations

variable (ρ ρ' : Rehash ℕ) (draw : ℤ × ℤ) {g g' : Game D F} {c d : ℕ}

theorem gameMap_apply (op : ClientOp D F) : (op.apply ρ draw g d).1.gameMap = g.gameMap := by
  cases op with
  | spawn =>
    simp only [ClientOp.apply, spawnPlayer]
    split_ifs <;> rfl
  | shoot =>
    simp only [ClientOp.apply, shootProjectile]
    split_ifs <;> rfl
  | changeMovementDirection velocityX velocityY =>
    simp only [ClientOp.apply, changePlayerMovement]
    split_ifs <;> rfl
  | changeOrientation | ping | unknown => rfl

/-- Only SHOOT changes the projectiles. -/
theorem projectiles_apply (op : ClientOp D F) : (op.apply ρ draw g d).1.projectiles =
    g.projectiles ++ match op with
      | .shoot => if (g.entry d).alive = false then [] else [(g.entry d).projectile d]
      | _ => [] := by
  cases op with
  | shoot => exact projectiles_shootProjectile ρ g d
  | spawn =>
    simp only [ClientOp.apply, spawnPlayer]
    split_ifs <;> exact (List.append_nil _).symm
  | changeMovementDirection velocityX velocityY =>
    simp only [ClientOp.apply, changePlayerMovement]
    split_ifs <;> exact (List.append_nil _).symm
  | changeOrientation | ping | unknown => exact (List.append_nil _).symm

/-- The entries of the others are left alone. -/
theorem find?_apply_of_ne (op : ClientOp D F) (h : c ≠ d) :
    (op.apply ρ draw g d).1.players.find? c = g.players.find? c := by
  cases op with
  | spawn => exact (find?_spawnPlayer ρ g d c draw).trans (if_neg h)
  | shoot => exact (find?_shootProjectile ρ g d c).trans (if_neg h)
  | changeOrientation angle => exact (find?_setPlayer_indexPlayer ρ g d c _).trans (if_neg h)
  | changeMovementDirection velocityX velocityY =>
    simp only [ClientOp.apply, changePlayerMovement]
    split_ifs
    · exact (find?_setPlayer_indexPlayer ρ g d c _).trans (if_neg h)
    · rfl
  | ping | unknown => rfl

/-- What becomes of the client's own entry depends on that entry alone. -/
theorem find?_apply_self (op : ClientOp D F) (h : g.players.find? d = g'.players.find? d) :
    (op.apply ρ draw g d).1.players.find? d = (op.apply ρ' draw g' d).1.players.find? d := by
  have hentry : g.entry d = g'.entry d := by rw [Game.entry, Game.entry, h]
  cases op with
  | spawn =>
    simp only [ClientOp.apply, find?_spawnPlayer, if_true, hentry]
  | shoot =>
    simp only [ClientOp.apply, find?_shootProjectile, if_true, hentry]
  | changeOrientation angle =>
    simp only [ClientOp.apply, changePlayerOrientation, find?_setPlayer_indexPlayer,
      val_indexPlayer, if_true, hentry]
  | changeMovementDirection velocityX velocityY =>
    simp only [ClientOp.apply, changePlayerMovement]
    split_ifs
    · simp only [find?_setPlayer_indexPlayer, val_indexPlayer, if_true, hentry]
    · exact h
  | ping | unknown => exact h

/-- The replies do not depend on the game. -/
theorem replies_apply (op : ClientOp D F) :
    (op.apply ρ draw g d).2 = (op.apply ρ' draw g' d).2 := by
  cases op <;> rfl

/-- Replies go to the client that is served. -/
theorem snd_of_mem_replies {r : Outgoing D × ℕ} {op : ClientOp D F}
    (hr : r ∈ (op.apply ρ draw g d).2) : r.2 = d := by
  cases op <;> simp_all [ClientOp.apply]

end Operations

/-! ## One message -/

section Handling

variable [OfWord 64 D] [OfWord 32 F]

/-- The effect of a message on the game, and the replies to it. -/
def Game.serve (g : Game D F) (ρ : Rehash ℕ) (draw : ℤ × ℤ) (m : IncomingMessage) :
    Game D F × List (Outgoing D × ℕ) :=
  ((handleMessage ρ draw g m).run []).1

variable (ρ ρ' : Rehash ℕ) (draw : ℤ × ℤ) {g g' : Game D F} {c : ℕ} (m : IncomingMessage)

theorem serve_message (hm : m.messageType = .message) :
    g.serve ρ draw m = (m.message.op D F).apply ρ draw g m.clientId := by
  obtain ⟨messageType, clientId, message⟩ := m
  cases hm
  rfl

theorem gameMap_serve : (g.serve ρ draw m).1.gameMap = g.gameMap := by
  obtain ⟨messageType, clientId, message⟩ := m
  cases messageType with
  | message => exact gameMap_apply ρ draw _
  | empty | newConnection | lostConnection => rfl

/-- The entry and the projectiles of another client stay, and it gets no reply. -/
theorem serve_of_ne (h : m.clientId ≠ c) :
    (g.serve ρ draw m).1.players.find? c = g.players.find? c ∧
      (g.serve ρ draw m).1.projectilesOf c = g.projectilesOf c ∧
      repliesOf (g.serve ρ draw m).2 c = [] := by
  obtain ⟨messageType, clientId, message⟩ := m
  have hc : c ≠ clientId := fun hsame => h hsame.symm
  cases messageType with
  | empty => exact ⟨rfl, rfl, rfl⟩
  | newConnection =>
    refine ⟨(UMap.find?_insert ρ g.players clientId c _).trans (if_neg hc), rfl, ?_⟩
    show repliesOf [(Outgoing.welcome clientId, clientId), (Outgoing.map g.gameMap, clientId)] c = []
    simp [repliesOf, Ne.symm hc]
  | lostConnection =>
    refine ⟨(UMap.find?_erase g.players clientId c).trans (if_neg hc), rfl, rfl⟩
  | message =>
    rw [serve_message ρ draw _ rfl]
    refine ⟨find?_apply_of_ne ρ draw _ hc, ?_, ?_⟩
    · rw [Game.projectilesOf, projectiles_apply, List.filter_append]
      refine (congrArg _ ?_).trans (List.append_nil _)
      refine List.filter_eq_nil_iff.mpr fun p hp => ?_
      have howner : p.ownerId = clientId := by
        cases hop : message.op D F <;> simp only [hop, List.not_mem_nil] at hp
        split_ifs at hp
        · cases hp
        · rw [List.mem_singleton.mp hp]
          rfl
      simp [howner, Ne.symm hc]
    · refine List.map_eq_nil_iff.mpr (List.filter_eq_nil_iff.mpr fun r hr => ?_)
      rw [snd_of_mem_replies ρ draw hr]
      simp [Ne.symm hc]

/-- What the message does to its client depends on the map and the part of that client. -/
theorem serve_self (hmap : g.gameMap = g'.gameMap)
    (hplayer : g.players.find? m.clientId = g'.players.find? m.clientId)
    (hprojectiles : g.projectilesOf m.clientId = g'.projectilesOf m.clientId) :
    (g.serve ρ draw m).1.players.find? m.clientId
        = (g'.serve ρ' draw m).1.players.find? m.clientId ∧
      (g.serve ρ draw m).1.projectilesOf m.clientId
        = (g'.serve ρ' draw m).1.projectilesOf m.clientId ∧
      (g.serve ρ draw m).2 = (g'.serve ρ' draw m).2 := by
  obtain ⟨messageType, clientId, message⟩ := m
  cases messageType with
  | empty => exact ⟨hplayer, hprojectiles, rfl⟩
  | newConnection =>
    refine ⟨?_, hprojectiles, ?_⟩
    · have hnew := UMap.find?_insert ρ g.players clientId clientId (Player.new clientId)
      have hnew' := UMap.find?_insert ρ' g'.players clientId clientId (Player.new clientId)
      rw [if_pos rfl] at hnew hnew'
      exact hnew.trans hnew'.symm
    · show [_, (Outgoing.map g.gameMap, clientId)] = [_, (Outgoing.map g'.gameMap, clientId)]
      rw [hmap]
  | lostConnection =>
    refine ⟨?_, hprojectiles, rfl⟩
    have hgone := UMap.find?_erase g.players clientId clientId
    have hgone' := UMap.find?_erase g'.players clientId clientId
    rw [if_pos rfl] at hgone hgone'
    exact hgone.trans hgone'.symm
  | message =>
    rw [serve_message ρ draw _ rfl, serve_message ρ' draw _ rfl]
    refine ⟨find?_apply_self ρ ρ' draw _ hplayer, ?_, replies_apply ρ ρ' draw _⟩
    have hentry : g.entry clientId = g'.entry clientId := by rw [Game.entry, Game.entry, hplayer]
    rw [Game.projectilesOf, Game.projectilesOf, projectiles_apply, projectiles_apply,
      List.filter_append, List.filter_append, hentry]
    exact congrArg (· ++ _) hprojectiles

end Handling

/-! ## Runs without a tick -/

namespace AtomicHost

variable [ToInt D] [OfWord 64 D] [OfWord 32 F] [ToWord 64 D] [ToWord 32 F]
  {a a' b b' : AtomicHost D F} {c : ℕ} {es es' : List HostEvent}

/-- What a message does to the atomic host. -/
theorem handle_eq_some {ρ : Rehash ℕ} {draw : ℤ × ℤ} {m : IncomingMessage} :
    a.step (.handle ρ draw m) = some b ↔ CanDraw a.game draw m ∧
      { a with
        game := (a.game.serve ρ draw m).1
        handled := a.handled ++ [m]
        replies := a.replies ++ (a.game.serve ρ draw m).2 } = b := by
  simp only [step]
  split_ifs with hdraw
  · exact Option.some_inj.trans (by simp only [hdraw, true_and]; rfl)
  · simp [hdraw]

theorem repliesOf_append (rs rs' : List (Outgoing D × ℕ)) (c : ℕ) :
    repliesOf (rs ++ rs') c = repliesOf rs c ++ repliesOf rs' c := by
  simp [repliesOf]

theorem gameMap_of_step {e : HostEvent} (h : a.step e = some b) :
    b.game.gameMap = a.game.gameMap := by
  cases e with
  | tick ρ =>
    obtain ⟨game, htick, rfl⟩ := Option.map_eq_some_iff.mp h
    exact HostThreads.gameMap_of_checkCollisions (g := updatePositions a.game) htick
  | serialize =>
    obtain rfl := Option.some.inj h
    rfl
  | handle ρ draw m =>
    obtain ⟨-, rfl⟩ := handle_eq_some.mp h
    exact gameMap_serve ρ draw m

/-- The events of the others leave the part of a client alone. -/
theorem part_of_other {e : HostEvent} (hquiet : e.NoTick) (hown : e.own c = none)
    (h : a.step e = some b) : b.part c = a.part c := by
  cases e with
  | tick ρ => exact hquiet.elim
  | serialize =>
    obtain rfl := Option.some.inj h
    rfl
  | handle ρ draw m =>
    obtain ⟨-, rfl⟩ := handle_eq_some.mp h
    have hne : m.clientId ≠ c := by simpa [HostEvent.own] using hown
    obtain ⟨hplayer, hprojectiles, hreplies⟩ := serve_of_ne ρ draw m hne (g := a.game)
    simp only [part, gameMap_serve, hplayer, hprojectiles, repliesOf_append, hreplies, List.append_nil]

/-- A message of the client changes its part in a way that depends on that part. -/
theorem part_of_own {e e' : HostEvent} (hown : (e.own c).isSome) (hsame : e.own c = e'.own c)
    (hpart : a.part c = a'.part c) (h : a.step e = some b) (h' : a'.step e' = some b') :
    b.part c = b'.part c := by
  obtain ⟨hmap, hplayer, hprojectiles, hreplies⟩ := ClientPart.mk.inj hpart
  cases e with
  | tick ρ | serialize => cases hown
  | handle ρ draw m =>
    have hm : m.clientId = c := by
      by_contra hne
      simp [HostEvent.own, hne] at hown
    cases e' with
    | tick ρ' | serialize => simp [HostEvent.own, hm] at hsame
    | handle ρ' draw' m' =>
      have hm' : m'.clientId = c := by
        by_contra hne
        simp [HostEvent.own, hm, hne] at hsame
      simp only [HostEvent.own, if_pos hm, if_pos hm'] at hsame
      obtain ⟨rfl, rfl⟩ := Prod.mk.inj (Option.some.inj hsame)
      subst hm
      obtain ⟨-, rfl⟩ := handle_eq_some.mp h
      obtain ⟨-, rfl⟩ := handle_eq_some.mp h'
      obtain ⟨hentry, hfired, hreplied⟩ := serve_self ρ ρ' draw m hmap hplayer hprojectiles
      simp only [part, gameMap_serve, hmap, hentry, hfired, repliesOf_append, hreplied, hreplies]

/-- Two runs in which a client sends the same leave it with the same part. -/
theorem part_of_run_eq (hes : ∀ e ∈ es, e.NoTick) (hes' : ∀ e ∈ es', e.NoTick)
    (hown : es.filterMap (HostEvent.own c) = es'.filterMap (HostEvent.own c))
    (hpart : a.part c = a'.part c) (h : Lts.run step es a = some b)
    (h' : Lts.run step es' a' = some b') : b.part c = b'.part c :=
  have hframe : ∀ (u : AtomicHost D F) (e : HostEvent) (v : AtomicHost D F), e.NoTick →
      e.own c = none → u.step e = some v → v.part c = u.part c :=
    fun _ _ _ hquiet hnone hstep => part_of_other hquiet hnone hstep
  have hlocal : ∀ (u u' : AtomicHost D F) (e e' : HostEvent) (v v' : AtomicHost D F), e.NoTick →
      e'.NoTick → (e.own c).isSome → e.own c = e'.own c → u.part c = u'.part c →
      u.step e = some v → u'.step e' = some v' → v.part c = v'.part c :=
    fun _ _ _ _ _ _ _ _ hsome hsame hview hstep hstep' =>
      part_of_own hsome hsame hview hstep hstep'
  Lts.run_view hframe hlocal hes hes' hown hpart h h'

/-- The draw of every SPAWN among the events is one the map allows. -/
def Allowed (gameMap : GameMap D) (F : Type) [OfWord 32 F] : HostEvent → Prop
  | .handle _ draw m => m.messageType = .message → (m.message.op D F).CanDraw gameMap draw
  | .tick _ | .serialize => True

/-- Events other than ticks can run exactly when the map allows their draws. -/
theorem isSome_run_iff (hes : ∀ e ∈ es, e.NoTick) :
    (Lts.run step es a).isSome ↔ ∀ e ∈ es, Allowed a.game.gameMap F e := by
  induction es generalizing a with
  | nil => simp
  | cons e es ih =>
    have hquiet : e.NoTick := hes e (by simp)
    have hfirst : (a.step e).isSome ↔ Allowed a.game.gameMap F e := by
      cases e with
      | tick ρ => exact hquiet.elim
      | serialize => simp [step, Allowed]
      | handle ρ draw m =>
        simp only [step]
        split_ifs with hdraw
        · exact iff_of_true rfl hdraw
        · exact iff_of_false (by simp) hdraw
    rw [Lts.run_cons, List.forall_mem_cons, ← hfirst]
    cases hstep : a.step e with
    | none => simp
    | some b =>
      rw [Option.bind_some, ih (fun k hk => hes k (by simp [hk])), gameMap_of_step hstep]
      simp

/-- Lists with the same sublist for each value of `f` are permutations of each other. -/
theorem perm_of_filter_eq {α κ : Type*} [DecidableEq κ] (f : α → κ) {l l' : List α}
    (h : ∀ k, (l.filter fun x => f x = k) = l'.filter fun x => f x = k) : l.Perm l' := by
  classical
  refine List.perm_iff_count.mpr fun x => ?_
  have hcount : ∀ l : List α, (l.filter fun y => f y = f x).count x = l.count x :=
    fun l => List.count_filter (by simp)
  rw [← hcount l, ← hcount l', h]

/-- An event the second run takes is one of the first, but for the order of the players. -/
theorem mem_own {ρ : Rehash ℕ} {draw : ℤ × ℤ} {m : IncomingMessage}
    (hown : ∀ c, es.filterMap (HostEvent.own c) = es'.filterMap (HostEvent.own c))
    (h : .handle ρ draw m ∈ es') : ∃ ρ', .handle ρ' draw m ∈ es := by
  have hmem : (draw, m) ∈ es'.filterMap (HostEvent.own m.clientId) :=
    List.mem_filterMap.mpr ⟨_, h, if_pos rfl⟩
  rw [← hown] at hmem
  obtain ⟨e, he, heq⟩ := List.mem_filterMap.mp hmem
  cases e with
  | tick ρ' | serialize => cases heq
  | handle ρ' draw' m' =>
    simp only [HostEvent.own] at heq
    split_ifs at heq
    obtain ⟨rfl, rfl⟩ := Prod.mk.inj (Option.some.inj heq)
    exact ⟨ρ', he⟩

end AtomicHost

open AtomicHost in
/-- **The order of different clients does not matter.** Between two ticks the messages may be
handled in any order that keeps the order of each client: the other order can be run as well, it
leaves every client with the same entry, the same projectiles and the same replies, and the players
and the projectiles that the next state shows are the same up to their order. -/
theorem served_in_any_order [ToInt D] [OfWord 64 D] [OfWord 32 F] [ToWord 64 D] [ToWord 32 F]
    (a b : AtomicHost D F) (es es' : List HostEvent) (hes : ∀ e ∈ es, e.NoTick)
    (hes' : ∀ e ∈ es', e.NoTick)
    (hown : ∀ c, es.filterMap (HostEvent.own c) = es'.filterMap (HostEvent.own c))
    (h : Lts.run step es a = some b) :
    ∃ b', Lts.run step es' a = some b' ∧ (∀ c, b'.part c = b.part c) ∧
      b'.game.players.keys.Perm b.game.players.keys ∧
      b'.game.projectiles.Perm b.game.projectiles := by
  have hallowed := (isSome_run_iff hes).mp (Option.isSome_iff_exists.mpr ⟨b, h⟩)
  obtain ⟨b', h'⟩ : ∃ b', Lts.run step es' a = some b' := by
    refine Option.isSome_iff_exists.mp ((isSome_run_iff hes').mpr fun e he => ?_)
    cases e with
    | tick ρ | serialize => trivial
    | handle ρ draw m =>
      obtain ⟨ρ', he'⟩ := mem_own hown he
      exact hallowed (.handle ρ' draw m) he'
  have hpart : ∀ c, b'.part c = b.part c := fun c =>
    (part_of_run_eq hes hes' (hown c) rfl h h').symm
  refine ⟨b', h', hpart, ?_, ?_⟩
  · refine (List.perm_ext_iff_of_nodup b'.game.players.nodup b.game.players.nodup).mpr fun k => ?_
    have hplayer : b'.game.players.find? k = b.game.players.find? k :=
      congrArg ClientPart.player (hpart k)
    rw [← UMap.isSome_find?, hplayer, UMap.isSome_find?]
  · exact perm_of_filter_eq Projectile.ownerId fun c => congrArg ClientPart.projectiles (hpart c)

/-- Client 0 pings and client 1 leaves, before or after client 0 connects. -/
def crossing (left : Bool) : List HostEvent :=
  let connect (c : ℕ) : HostEvent := .handle Rehash.front 0 ⟨.newConnection, c, .ofBytes []⟩
  let ping : HostEvent := .handle Rehash.front 0 ⟨.message, 0, .ofBytes [14, 7, 0]⟩
  let leave : HostEvent := .handle Rehash.front 0 ⟨.lostConnection, 1, .ofBytes []⟩
  if left then [connect 1, leave, connect 0, .serialize, ping]
  else [connect 0, connect 1, ping, leave]

theorem served_in_any_order_crossing :
    ∃ b b' : AtomicHost ℝ ℝ,
      Lts.run AtomicHost.step (crossing false) (.initial ⟨[], 0, 0, [], []⟩) = some b ∧
      Lts.run AtomicHost.step (crossing true) (.initial ⟨[], 0, 0, [], []⟩) = some b' ∧
      b.replies.length = 5 ∧ ∀ c, b'.part c = b.part c := by
  have hown : ∀ c, (crossing false).filterMap (HostEvent.own c)
      = (crossing true).filterMap (HostEvent.own c) := by
    intro c
    rcases eq_or_ne 0 c with rfl | h0
    · rfl
    · rcases eq_or_ne 1 c with rfl | h1
      · rfl
      · simp [crossing, HostEvent.own, h0, h1]
  obtain ⟨b, hb, hreplies⟩ : ∃ b : AtomicHost ℝ ℝ, Lts.run AtomicHost.step (crossing false)
      (.initial ⟨[], 0, 0, [], []⟩) = some b ∧ b.replies.length = 5 := ⟨_, rfl, rfl⟩
  obtain ⟨b', hb', hpart, -, -⟩ := served_in_any_order _ b (crossing false) (crossing true)
    (by decide) (by decide) hown hb
  exact ⟨b, b', hb, hb', hreplies, hpart⟩

end PRShooter
