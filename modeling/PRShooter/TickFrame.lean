import PRShooter.Game

/-!
# What a tick leaves alone

The player loops of `checkCollisions` change nothing but centres, and no loop removes a player. A
projectile that is left has passed every test. Each lemma follows the shape of the loop it is
about: one for the body, then one for the loop.
-/

set_option linter.unusedSectionVars false

namespace PRShooter

variable {D F : Type}

/-- The player at another place. -/
def Player.moveTo (p : Player D F) (c : Point D) : Player D F := { p with centre := c }

namespace Player

variable (p : Player D F) (c c' : Point D)

@[simp] theorem moveTo_centre : (p.moveTo c).centre = c := rfl
@[simp] theorem moveTo_r : (p.moveTo c).r = p.r := rfl
@[simp] theorem moveTo_playerId : (p.moveTo c).playerId = p.playerId := rfl
@[simp] theorem moveTo_alive : (p.moveTo c).alive = p.alive := rfl
@[simp] theorem moveTo_health : (p.moveTo c).health = p.health := rfl
@[simp] theorem moveTo_velocity : (p.moveTo c).velocity = p.velocity := rfl
@[simp] theorem moveTo_moveTo : (p.moveTo c).moveTo c' = p.moveTo c' := rfl
@[simp] theorem moveTo_self : p.moveTo p.centre = p := rfl

end Player

/-- The same player, possibly at another place. -/
def Player.Moved (p q : Player D F) : Prop := ∃ c, q = p.moveTo c

namespace Player.Moved

variable {p q s : Player D F}

theorem refl (p : Player D F) : p.Moved p := ⟨p.centre, rfl⟩

theorem trans : p.Moved q → q.Moved s → p.Moved s := by
  rintro ⟨c, rfl⟩ ⟨c', rfl⟩
  exact ⟨c', rfl⟩

end Player.Moved

/-- The same players, each possibly at another place. -/
def OnlyCentres (players players' : UMap ℕ (Player D F)) : Prop :=
  players'.keys = players.keys ∧ ∀ k, (players.val k).Moved (players'.val k)

namespace OnlyCentres

variable {players players' players'' : UMap ℕ (Player D F)}

theorem refl (players : UMap ℕ (Player D F)) : OnlyCentres players players :=
  ⟨rfl, fun k => .refl (players.val k)⟩

theorem trans (h : OnlyCentres players players') (h' : OnlyCentres players' players'') :
    OnlyCentres players players'' :=
  ⟨h'.1.trans h.1, fun k => (h.2 k).trans (h'.2 k)⟩

theorem set {k : ℕ} {p : Player D F} (h : (players.val k).Moved p) :
    OnlyCentres players (players.set k p) := by
  refine ⟨rfl, fun j => ?_⟩
  rw [UMap.val_set]
  split_ifs with hj
  · exact hj ▸ h
  · exact .refl _

theorem alive (h : OnlyCentres players players') (k : ℕ) :
    (players'.val k).alive = (players.val k).alive := by
  obtain ⟨c, hc⟩ := h.2 k
  rw [hc, Player.moveTo_alive]

theorem health (h : OnlyCentres players players') (k : ℕ) :
    (players'.val k).health = (players.val k).health := by
  obtain ⟨c, hc⟩ := h.2 k
  rw [hc, Player.moveTo_health]

theorem playerId (h : OnlyCentres players players') (k : ℕ) :
    (players'.val k).playerId = (players.val k).playerId := by
  obtain ⟨c, hc⟩ := h.2 k
  rw [hc, Player.moveTo_playerId]

theorem r (h : OnlyCentres players players') (k : ℕ) :
    (players'.val k).r = (players.val k).r := by
  obtain ⟨c, hc⟩ := h.2 k
  rw [hc, Player.moveTo_r]

theorem velocity (h : OnlyCentres players players') (k : ℕ) :
    (players'.val k).velocity = (players.val k).velocity := by
  obtain ⟨c, hc⟩ := h.2 k
  rw [hc, Player.moveTo_velocity]

end OnlyCentres

variable [Add D] [Mul D] [NatCast D] [OfScientific D]

theorem Player.moved_advance (p : Player D F) : p.Moved p.advance := by
  unfold Player.advance
  split_ifs
  · exact .refl p
  · exact ⟨_, rfl⟩

theorem Player.advance_of_not_alive {p : Player D F} (h : p.alive = false) : p.advance = p := by
  simp [Player.advance, h]

theorem onlyCentres_updatePositions (g : Game D F) :
    OnlyCentres g.players (updatePositions g).players :=
  ⟨rfl, fun k => (g.players.val k).moved_advance⟩

variable [Sub D] [Div D] [Neg D] [One D] [LT D] [LE D] [DecidableLT D] [DecidableLE D] [HasSqrt D]

/-! ## The loops of one player -/

theorem moved_pushOff (P1 P2 Q1 Q2 : Point D) (p : Player D F) :
    p.Moved (pushOff P1 P2 Q1 Q2 p) := by
  unfold pushOff
  split_ifs
  · exact ⟨_, rfl⟩
  · exact .refl p

theorem moved_moveAlongNormalRectangle (p : Player D F) (rec : Rectangle D) :
    p.Moved (moveAlongNormalRectangle p rec) :=
  (((moved_pushOff _ _ _ _ p).trans (moved_pushOff _ _ _ _ _)).trans
    (moved_pushOff _ _ _ _ _)).trans (moved_pushOff _ _ _ _ _)

theorem moved_collideWall (p : Player D F) (wall : Rectangle D) : p.Moved (collideWall p wall) := by
  unfold collideWall
  split_ifs
  · exact moved_moveAlongNormalRectangle p wall
  · exact .refl p

theorem moved_collideObstacle (p : Player D F) (obstacle : Circle D) :
    p.Moved (collideObstacle p obstacle) := by
  unfold collideObstacle
  split_ifs
  · exact ⟨_, rfl⟩
  · exact .refl p

theorem moved_collideBorder (p : Player D F) (edge : Point D × Point D) :
    p.Moved (collideBorder p edge) :=
  moved_pushOff _ _ _ _ p

/-- A loop whose body only moves the player only moves the player. -/
theorem moved_foldl {α : Type} {f : Player D F → α → Player D F}
    (h : ∀ (p : Player D F) (a : α), p.Moved (f p a)) (l : List α) (p : Player D F) :
    p.Moved (l.foldl f p) := by
  induction l generalizing p with
  | nil => exact .refl p
  | cons a l ih => exact (h p a).trans (ih (f p a))

theorem moved_collideMap {m : GameMap D} {p q : Player D F} (h : collideMap m p = some q) :
    p.Moved q := by
  obtain ⟨edges, -, rfl⟩ := Option.map_eq_some_iff.mp h
  exact ((moved_foldl moved_collideWall _ p).trans (moved_foldl moved_collideObstacle _ _)).trans
    (moved_foldl moved_collideBorder _ _)

/-! ## The loops over the players -/

theorem onlyCentres_collidePlayers (k : ℕ) (players : UMap ℕ (Player D F)) (j : ℕ) :
    OnlyCentres players (collidePlayers k players j) := by
  unfold collidePlayers
  split_ifs with hj
  · exact .refl players
  · have hk : (players.val k).Moved
        (moveAlongNormalPlayer (players.val k) (players.val j)).1 := ⟨_, rfl⟩
    refine (OnlyCentres.set hk).trans (OnlyCentres.set ?_)
    rw [UMap.val_set_of_ne _ _ hj]
    exact ⟨_, rfl⟩
  · exact .refl players

theorem onlyCentres_foldl_collidePlayers (k : ℕ) (js : List ℕ) (players : UMap ℕ (Player D F)) :
    OnlyCentres players (js.foldl (collidePlayers k) players) := by
  induction js generalizing players with
  | nil => exact .refl players
  | cons j js ih => exact (onlyCentres_collidePlayers k players j).trans (ih _)

theorem onlyCentres_collidePlayer {m : GameMap D} {players players' : UMap ℕ (Player D F)} {k : ℕ}
    (h : collidePlayer m players k = some players') : OnlyCentres players players' := by
  unfold collidePlayer at h
  split_ifs at h with halive
  · exact Option.some.inj h ▸ .refl players
  · obtain ⟨p, hp, rfl⟩ := Option.map_eq_some_iff.mp h
    exact (onlyCentres_foldl_collidePlayers k _ players).trans (.set (moved_collideMap hp))

/-- A player who is alone in the map meets nobody. -/
theorem checkPlayerCollisions_alone {m : GameMap D} {players : UMap ℕ (Player D F)} {k : ℕ}
    (hkeys : players.keys = [k]) (halive : (players.val k).alive = true) {p : Player D F}
    (hp : collideMap m (players.val k) = some p) :
    checkPlayerCollisions m players = some (players.set k p) := by
  have hstep : collidePlayer m players k = some (players.set k p) := by
    have hself : [k].foldl (collidePlayers k) players = players := by simp [collidePlayers]
    rw [collidePlayer, if_neg (by simp [halive]), hkeys]
    simp only [hself, hp, Option.map_some]
  unfold checkPlayerCollisions
  rw [hkeys, Lts.run_cons, hstep]
  rfl

/-- Players who touch neither each other nor the map stay where they are. -/
theorem checkPlayerCollisions_of_apart {m : GameMap D} {players : UMap ℕ (Player D F)}
    (hapart : ∀ k ∈ players.keys, ∀ j ∈ players.keys, j ≠ k →
      checkCollisionCircle (players.val k).toCircle (players.val j).toCircle = false)
    (hmap : ∀ k ∈ players.keys, collideMap m (players.val k) = some (players.val k)) :
    checkPlayerCollisions m players = some players := by
  have hinner : ∀ k ∈ players.keys, ∀ js ⊆ players.keys,
      js.foldl (collidePlayers k) players = players := by
    intro k hk js hjs
    induction js with
    | nil => rfl
    | cons j js ih =>
      have hstay : collidePlayers k players j = players := by
        unfold collidePlayers
        split_ifs with hjk htouch
        · rfl
        · rw [hapart k hk j (hjs List.mem_cons_self) hjk] at htouch
          cases htouch
        · rfl
      rw [List.foldl_cons, hstay]
      exact ih fun i hi => hjs (List.mem_cons_of_mem j hi)
  have hturns : ∀ ks ⊆ players.keys, Lts.run (collidePlayer m) ks players = some players := by
    intro ks hks
    induction ks with
    | nil => rfl
    | cons k ks ih =>
      have hk := hks List.mem_cons_self
      have hturn : collidePlayer m players k = some players := by
        unfold collidePlayer
        split_ifs
        · rfl
        · simp only [hinner k hk _ (List.Subset.refl _), hmap k hk, Option.map_some,
            UMap.set_val_self]
      rw [Lts.run_cons, hturn]
      exact ih fun i hi => hks (List.mem_cons_of_mem k hi)
  exact hturns players.keys (List.Subset.refl _)

/-- The player loop of `checkCollisions` only moves players. -/
theorem onlyCentres_checkPlayerCollisions {m : GameMap D} {players players' : UMap ℕ (Player D F)}
    (h : checkPlayerCollisions m players = some players') : OnlyCentres players players' :=
  Lts.run_invariant h (.refl players) fun _ _ _ _ hI hstep =>
    hI.trans (onlyCentres_collidePlayer hstep)

variable [Zero D] [Zero F]

/-! ## The loop over the projectiles -/

theorem projectileLoop_cons {ρ : Rehash ℕ} {m : GameMap D} {players players' : UMap ℕ (Player D F)}
    {p : Projectile D} {ps left : List (Projectile D)}
    (h : projectileLoop ρ m players (p :: ps) = some (players', left)) :
    ∃ hit players'' left', checkProjectileCollisions ρ m players p = some (hit, players'') ∧
      projectileLoop ρ m players'' ps = some (players', left') ∧
      left = if hit then left' else p :: left' := by
  simp only [projectileLoop, bind, Option.bind_eq_some_iff, Prod.exists, pure,
    Option.some.injEq, Prod.mk.injEq] at h
  obtain ⟨hit, players'', hcheck, players₃, left', hloop, rfl, rfl⟩ := h
  exact ⟨hit, players'', left', hcheck, hloop, rfl⟩

/-- What a projectile does to the players: nothing, or it hits one where no object is in its way. -/
theorem players_of_checkProjectileCollisions {ρ : Rehash ℕ} {m : GameMap D}
    {players players' : UMap ℕ (Player D F)} {p : Projectile D} {hit : Bool}
    (h : checkProjectileCollisions ρ m players p = some (hit, players')) :
    players' = players ∨ p.hitsObject m = false ∧ ∃ k, p.hitPlayer players = some k ∧
      players' = damagePlayer ρ players p.ownerId k := by
  unfold checkProjectileCollisions at h
  split_ifs at h with hobj
  · exact .inl (Prod.mk.inj (Option.some.inj h)).2.symm
  · split at h
    next k hk =>
      exact .inr ⟨by simpa using hobj, k, hk, (Prod.mk.inj (Option.some.inj h)).2.symm⟩
    next =>
      obtain ⟨edges, -, he⟩ := Option.map_eq_some_iff.mp h
      exact .inl (Prod.mk.inj he).2.symm

/-- What every projectile keeps of the players, the loop over them keeps. -/
theorem projectileLoop_rel {R : UMap ℕ (Player D F) → UMap ℕ (Player D F) → Prop} {ρ : Rehash ℕ}
    {m : GameMap D} (hrefl : ∀ players, R players players)
    (htrans : ∀ {u v w}, R u v → R v w → R u w)
    (hcheck : ∀ {players players' p hit},
      checkProjectileCollisions ρ m players p = some (hit, players') → R players players')
    {ps : List (Projectile D)} :
    ∀ {players players' : UMap ℕ (Player D F)} {left : List (Projectile D)},
      projectileLoop ρ m players ps = some (players', left) → R players players' := by
  induction ps with
  | nil =>
    intro players players' left h
    obtain ⟨rfl, -⟩ := Prod.mk.inj (Option.some.inj h)
    exact hrefl players
  | cons p ps ih =>
    intro players players' left h
    obtain ⟨hit, players'', left', hfirst, hloop, -⟩ := projectileLoop_cons h
    exact htrans (hcheck hfirst) (ih hloop)

/-- No player is removed, moved, turned or revived; a new key holds a player who is not alive and
has never moved. -/
structure OnlyHits (players players' : UMap ℕ (Player D F)) : Prop where
  keys : players.keys ⊆ players'.keys
  circle : ∀ k ∈ players.keys, (players'.val k).toCircle = (players.val k).toCircle
  velocity : ∀ k ∈ players.keys, (players'.val k).velocity = (players.val k).velocity
  fresh : ∀ k ∈ players'.keys, k ∉ players.keys →
    (players'.val k).toCircle = (Player.new 0 : Player D F).toCircle ∧ (players'.val k).velocity = 0
  alive : ∀ k ∈ players'.keys, (players'.val k).alive = true →
    k ∈ players.keys ∧ (players.val k).alive = true

namespace OnlyHits

variable {players players' players'' : UMap ℕ (Player D F)}

theorem refl (players : UMap ℕ (Player D F)) : OnlyHits players players :=
  ⟨List.Subset.refl _, fun _ _ => rfl, fun _ _ => rfl, fun _ hk hnew => absurd hk hnew,
    fun _ hk halive => ⟨hk, halive⟩⟩

theorem trans (h : OnlyHits players players') (h' : OnlyHits players' players'') :
    OnlyHits players players'' where
  keys _ hk := h'.keys (h.keys hk)
  circle k hk := (h'.circle k (h.keys hk)).trans (h.circle k hk)
  velocity k hk := (h'.velocity k (h.keys hk)).trans (h.velocity k hk)
  fresh k hk hnew := by
    by_cases hk' : k ∈ players'.keys
    · exact ⟨(h'.circle k hk').trans (h.fresh k hk' hnew).1,
        (h'.velocity k hk').trans (h.fresh k hk' hnew).2⟩
    · exact h'.fresh k hk hk'
  alive k hk halive := (h'.alive k hk halive).elim (h.alive k)

theorem set {k : ℕ} {p : Player D F} (hcircle : p.toCircle = (players.val k).toCircle)
    (hvelocity : p.velocity = (players.val k).velocity)
    (halive : p.alive = true → (players.val k).alive = true) :
    OnlyHits players (players.set k p) := by
  refine ⟨List.Subset.refl _, fun j _ => ?_, fun j _ => ?_, fun j hj hnew => absurd hj hnew,
    fun j hj => ?_⟩ <;> rw [UMap.val_set] <;> split_ifs with hjk
  · rw [hcircle, hjk]
  · rfl
  · rw [hvelocity, hjk]
  · rfl
  · intro hp
    exact ⟨hj, hjk ▸ halive hp⟩
  · intro hp
    exact ⟨hj, hp⟩

theorem index (ρ : Rehash ℕ) (players : UMap ℕ (Player D F)) (k : ℕ) :
    OnlyHits players (players.index ρ k (Player.new 0)) := by
  have hold : ∀ j ∈ players.keys, ¬ (j = k ∧ k ∉ players.keys) := by
    rintro j hj ⟨rfl, hk⟩
    exact hk hj
  refine ⟨fun j hj => ?_, fun j hj => ?_, fun j hj => ?_, fun j hj hnew => ?_, fun j hj => ?_⟩
  · exact (UMap.mem_keys_index ρ players _).mpr (.inr hj)
  · rw [UMap.val_index, if_neg (hold j hj)]
  · rw [UMap.val_index, if_neg (hold j hj)]
  · have hjk : j = k := ((UMap.mem_keys_index ρ players _).mp hj).resolve_right hnew
    rw [UMap.val_index, if_pos ⟨hjk, hjk ▸ hnew⟩]
    exact ⟨rfl, rfl⟩
  · rw [UMap.val_index]
    split_ifs with hnew
    · intro hp
      exact absurd hp (by simp [Player.new])
    · refine fun hp => ⟨?_, hp⟩
      rcases (UMap.mem_keys_index ρ players _).mp hj with rfl | hj
      · by_contra hk
        exact hnew ⟨rfl, hk⟩
      · exact hj

end OnlyHits

theorem onlyHits_damagePlayer (ρ : Rehash ℕ) (players : UMap ℕ (Player D F)) (ownerId k : ℕ) :
    OnlyHits players (damagePlayer ρ players ownerId k) := by
  simp only [damagePlayer]
  split_ifs
  · have hdeath : OnlyHits players (players.set k
        { players.val k with alive := false, deaths := (players.val k).deaths + 1 }) :=
      .set rfl rfl (by simp)
    exact (hdeath.trans (.index ρ _ ownerId)).trans (.set rfl rfl id)
  · exact .set rfl rfl id

theorem onlyHits_checkProjectileCollisions {ρ : Rehash ℕ} {m : GameMap D}
    {players players' : UMap ℕ (Player D F)} {p : Projectile D} {hit : Bool}
    (h : checkProjectileCollisions ρ m players p = some (hit, players')) :
    OnlyHits players players' := by
  rcases players_of_checkProjectileCollisions h with rfl | ⟨-, k, -, rfl⟩
  · exact .refl players'
  · exact onlyHits_damagePlayer ρ players p.ownerId k

/-- The projectiles hit players and do nothing else to them. -/
theorem onlyHits_projectileLoop {ρ : Rehash ℕ} {m : GameMap D} {ps : List (Projectile D)}
    {players players' : UMap ℕ (Player D F)} {left : List (Projectile D)}
    (h : projectileLoop ρ m players ps = some (players', left)) : OnlyHits players players' :=
  projectileLoop_rel .refl .trans onlyHits_checkProjectileCollisions h

/-- The projectile has been found to touch no wall, no obstacle and no border edge. -/
def Projectile.Clear (m : GameMap D) (p : Projectile D) : Prop :=
  p.hitsObject m = false ∧
    ∃ edges, borderEdges m.borders = some edges ∧
      ∀ e ∈ edges, checkCollisionSegment p.toCircle e.1 e.2 = false

theorem clear_of_checkProjectileCollisions {ρ : Rehash ℕ} {m : GameMap D}
    {players players' : UMap ℕ (Player D F)} {p : Projectile D}
    (h : checkProjectileCollisions ρ m players p = some (false, players')) : p.Clear m := by
  unfold checkProjectileCollisions at h
  split_ifs at h with hobj
  · cases h
  · split at h
    · cases h
    · obtain ⟨edges, hedges, he⟩ := Option.map_eq_some_iff.mp h
      have hnone := (Prod.mk.inj he).1
      rw [List.any_eq_false] at hnone
      exact ⟨by simpa using hobj, edges, hedges, fun e he => by simpa using hnone e he⟩

theorem checkProjectileCollisions_of_clear {ρ : Rehash ℕ} {m : GameMap D}
    {players : UMap ℕ (Player D F)} {p : Projectile D} (hclear : p.Clear m)
    (hplayer : p.hitPlayer players = none) :
    checkProjectileCollisions ρ m players p = some (false, players) := by
  obtain ⟨hobj, edges, hedges, hmiss⟩ := hclear
  have hnone : (edges.any fun e => checkCollisionSegment p.toCircle e.1 e.2) = false :=
    List.any_eq_false.mpr fun e he => by simp [hmiss e he]
  simp [checkProjectileCollisions, hobj, hplayer, hedges, hnone]

theorem projectileLoop_cons_eq {ρ : Rehash ℕ} {m : GameMap D}
    {players players' players'' : UMap ℕ (Player D F)} {p : Projectile D}
    {ps left : List (Projectile D)} {hit : Bool}
    (hcheck : checkProjectileCollisions ρ m players p = some (hit, players'))
    (hloop : projectileLoop ρ m players' ps = some (players'', left)) :
    projectileLoop ρ m players (p :: ps) = some (players'', if hit then left else p :: left) := by
  simp [projectileLoop, hcheck, hloop]

/-- A projectile that is left has been tested. -/
theorem clear_of_projectileLoop {ρ : Rehash ℕ} {m : GameMap D} {ps : List (Projectile D)} :
    ∀ {players players' : UMap ℕ (Player D F)} {left : List (Projectile D)},
      projectileLoop ρ m players ps = some (players', left) →
        left.Sublist ps ∧ ∀ p ∈ left, p.Clear m := by
  induction ps with
  | nil =>
    intro players players' left h
    obtain ⟨-, rfl⟩ := Prod.mk.inj (Option.some.inj h)
    exact ⟨List.Sublist.refl [], by simp⟩
  | cons p ps ih =>
    intro players players' left h
    obtain ⟨hit, players'', left', hcheck, hloop, rfl⟩ := projectileLoop_cons h
    obtain ⟨hsub, hclear⟩ := ih hloop
    cases hit with
    | true => exact ⟨hsub.cons p, hclear⟩
    | false =>
      refine ⟨hsub.cons_cons p, fun q hq => ?_⟩
      rcases List.mem_cons.mp hq with rfl | hq
      · exact clear_of_checkProjectileCollisions hcheck
      · exact hclear q hq

/-! ## The tick -/

/-- The two loops of a tick. -/
theorem tick_eq_some {ρ : Rehash ℕ} {g g' : Game D F} :
    tick ρ g = some g' ↔ ∃ players players' projectiles,
      checkPlayerCollisions g.gameMap (updatePositions g).players = some players ∧
      projectileLoop ρ g.gameMap players (g.projectiles.map Projectile.advance)
        = some (players', projectiles) ∧
      g' = { g with players := players', projectiles := projectiles } := by
  simp only [tick, checkCollisions, updatePositions, bind, Option.bind_eq_some_iff, Prod.exists,
    pure, Option.some.injEq]
  constructor
  · rintro ⟨players, hplayers, players', projectiles, hloop, rfl⟩
    exact ⟨players, players', projectiles, hplayers, hloop, rfl⟩
  · rintro ⟨players, players', projectiles, hplayers, hloop, rfl⟩
    exact ⟨players, hplayers, players', projectiles, hloop, rfl⟩

theorem clear_of_tick {ρ : Rehash ℕ} {g g' : Game D F} (h : tick ρ g = some g') :
    g'.projectiles.Sublist (g.projectiles.map Projectile.advance) ∧
      ∀ p ∈ g'.projectiles, p.Clear g.gameMap := by
  obtain ⟨players, players', projectiles, -, hloop, rfl⟩ := tick_eq_some.mp h
  exact clear_of_projectileLoop hloop

/-- A tick removes no player. -/
theorem keys_subset_tick {ρ : Rehash ℕ} {g g' : Game D F} (h : tick ρ g = some g') :
    g.players.keys ⊆ g'.players.keys := by
  obtain ⟨players, players', projectiles, hplayers, hloop, rfl⟩ := tick_eq_some.mp h
  have hkeys : players.keys = g.players.keys := (onlyCentres_checkPlayerCollisions hplayers).1
  exact hkeys ▸ (onlyHits_projectileLoop hloop).keys

/-! ## A border with a point -/

theorem borderEdges_isSome {ps : List (Point D)} (h : ps ≠ []) : (borderEdges ps).isSome := by
  cases ps with
  | nil => exact absurd rfl h
  | cons p ps => rfl

theorem collidePlayer_isSome {m : GameMap D} (h : m.borders ≠ []) (players : UMap ℕ (Player D F))
    (k : ℕ) : (collidePlayer m players k).isSome := by
  unfold collidePlayer
  split_ifs
  · rfl
  · simp [collideMap, borderEdges_isSome h]

theorem checkPlayerCollisions_isSome {m : GameMap D} (h : m.borders ≠ [])
    (players : UMap ℕ (Player D F)) : (checkPlayerCollisions m players).isSome :=
  Lts.run_isSome (collidePlayer_isSome h) _ _

theorem checkProjectileCollisions_isSome {m : GameMap D} (h : m.borders ≠ []) (ρ : Rehash ℕ)
    (players : UMap ℕ (Player D F)) (p : Projectile D) :
    (checkProjectileCollisions ρ m players p).isSome := by
  unfold checkProjectileCollisions
  split_ifs
  · rfl
  · split
    · rfl
    · simp [borderEdges_isSome h]

theorem projectileLoop_isSome {m : GameMap D} (h : m.borders ≠ []) (ρ : Rehash ℕ)
    (ps : List (Projectile D)) (players : UMap ℕ (Player D F)) :
    (projectileLoop ρ m players ps).isSome := by
  induction ps generalizing players with
  | nil => rfl
  | cons p ps ih =>
    obtain ⟨⟨hit, players'⟩, hcheck⟩ :=
      Option.isSome_iff_exists.mp (checkProjectileCollisions_isSome h ρ players p)
    obtain ⟨⟨players'', left⟩, hloop⟩ := Option.isSome_iff_exists.mp (ih players')
    simp [projectileLoop, hcheck, hloop]

/-- On a border with at least one point a tick never reads past the end of the border. -/
theorem tick_isSome {g : Game D F} (h : g.gameMap.borders ≠ []) (ρ : Rehash ℕ) :
    (tick ρ g).isSome := by
  obtain ⟨players, hplayers⟩ := Option.isSome_iff_exists.mp
    (checkPlayerCollisions_isSome h (updatePositions g).players)
  obtain ⟨⟨players', left⟩, hloop⟩ := Option.isSome_iff_exists.mp
    (projectileLoop_isSome h ρ (g.projectiles.map Projectile.advance) players)
  rw [Option.isSome_iff_exists]
  exact ⟨_, tick_eq_some.mpr ⟨players, players', left, hplayers, hloop, rfl⟩⟩

end PRShooter
