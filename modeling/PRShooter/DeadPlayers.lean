import PRShooter.Pushes

/-!
# Players who are not alive

`updatePositions`, the outer loop over the players and the projectiles skip a player who is not
alive. The inner loop does not: an alive player who overlaps a dead one is pushed off it, and the
dead one is moved. `liveCollisions` is the resolution among the alive players alone. A tick keeps
the dead out of the simulation if no alive player touches a dead one in it.
-/

set_option linter.unusedSectionVars false

namespace PRShooter

variable {D F : Type} [Zero D] [One D] [Zero F] [NatCast D] [OfScientific D] [Add D] [Sub D]
  [Mul D] [Div D] [Neg D] [LT D] [LE D] [DecidableLT D] [DecidableLE D] [HasSqrt D]

/-! ## The resolution among the alive -/

/-- The inner loop body if it asks for `second_player.alive` too. -/
def collideLive (k : ℕ) (players : UMap ℕ (Player D F)) (j : ℕ) : UMap ℕ (Player D F) :=
  if (players.val j).alive = false then players else collidePlayers k players j

/-- The outer loop body over `collideLive`. -/
def collidePlayerLive (m : GameMap D) (players : UMap ℕ (Player D F)) (k : ℕ) :
    Option (UMap ℕ (Player D F)) :=
  if (players.val k).alive = false then some players
  else
    let players := players.keys.foldl (collideLive k) players
    (collideMap m (players.val k)).map (players.set k)

/-- The loop over the players if the dead are left out. -/
def liveCollisions (m : GameMap D) (players : UMap ℕ (Player D F)) :
    Option (UMap ℕ (Player D F)) :=
  Lts.run (collidePlayerLive m) players.keys players

/-- Player `j` is alive or out of reach of `k`. -/
def OutOfReach (k : ℕ) (players : UMap ℕ (Player D F)) (j : ℕ) : Prop :=
  (players.val j).alive = false →
    checkCollisionCircle (players.val k).toCircle (players.val j).toCircle = false

/-- In its turn an alive player `k` meets no dead player. -/
def TurnClear (players : UMap ℕ (Player D F)) (k : ℕ) : Prop :=
  (players.val k).alive = true →
    Lts.Along (fun u j => some (collideLive k u j)) (OutOfReach k) players.keys players

/-- No alive player meets a dead one while the alive ones are resolved. -/
def DeadUntouched (g : Game D F) : Prop :=
  Lts.Along (collidePlayerLive g.gameMap) TurnClear (updatePositions g).players.keys
    (updatePositions g).players

theorem collidePlayers_eq_collideLive {k j : ℕ} {players : UMap ℕ (Player D F)}
    (h : OutOfReach k players j) : collidePlayers k players j = collideLive k players j := by
  unfold collideLive
  split_ifs with hdead
  · unfold collidePlayers
    rw [h hdead]
    simp
  · rfl

theorem collidePlayer_eq_live {m : GameMap D} {players : UMap ℕ (Player D F)} {k : ℕ}
    (h : TurnClear players k) : collidePlayer m players k = collidePlayerLive m players k := by
  unfold collidePlayer collidePlayerLive
  split_ifs with halive
  · rfl
  · have hrun : Lts.run (fun u j => some (collidePlayers k u j)) players.keys players
        = Lts.run (fun u j => some (collideLive k u j)) players.keys players :=
      Lts.run_eq_of_along (fun u j hj => congrArg some (collidePlayers_eq_collideLive hj))
        (h (by simpa using halive))
    rw [Lts.run_some, Lts.run_some] at hrun
    simp only [Option.some.inj hrun]

/-- Where the dead are untouched, the code resolves the alive players alone. -/
theorem checkPlayerCollisions_eq_live {g : Game D F} (h : DeadUntouched g) :
    checkPlayerCollisions g.gameMap (updatePositions g).players =
      liveCollisions g.gameMap (updatePositions g).players :=
  Lts.run_eq_of_along (fun _ _ hk => collidePlayer_eq_live hk) h

/-! ## The dead stay where they are -/

/-- Keys, and the players who are not alive, are as before; the others have only moved. -/
structure OnlyLive (players players' : UMap ℕ (Player D F)) : Prop where
  centres : OnlyCentres players players'
  dead : ∀ k, (players.val k).alive = false → players'.val k = players.val k

theorem OnlyLive.refl (players : UMap ℕ (Player D F)) : OnlyLive players players :=
  ⟨.refl players, fun _ _ => rfl⟩

theorem OnlyLive.trans {players players' players'' : UMap ℕ (Player D F)}
    (h : OnlyLive players players') (h' : OnlyLive players' players'') :
    OnlyLive players players'' :=
  ⟨h.centres.trans h'.centres, fun k hk =>
    (h'.dead k ((h.centres.alive k).trans hk)).trans (h.dead k hk)⟩

theorem OnlyLive.set {players : UMap ℕ (Player D F)} {k : ℕ} {p : Player D F}
    (halive : (players.val k).alive = true) (h : (players.val k).Moved p) :
    OnlyLive players (players.set k p) := by
  refine ⟨.set h, fun j hj => UMap.val_set_of_ne _ _ ?_⟩
  rintro rfl
  rw [halive] at hj
  cases hj

theorem onlyLive_updatePositions (g : Game D F) :
    OnlyLive g.players (updatePositions g).players :=
  ⟨onlyCentres_updatePositions g, fun _ hk => Player.advance_of_not_alive hk⟩

theorem onlyLive_collideLive {k : ℕ} {players : UMap ℕ (Player D F)}
    (hk : (players.val k).alive = true) (j : ℕ) : OnlyLive players (collideLive k players j) := by
  unfold collideLive
  split_ifs with hdead
  · exact .refl players
  · refine ⟨onlyCentres_collidePlayers k players j, fun i hi => ?_⟩
    have hik : i ≠ k := by
      rintro rfl
      rw [hk] at hi
      cases hi
    have hij : i ≠ j := by
      rintro rfl
      exact hdead hi
    unfold collidePlayers
    split_ifs
    · rfl
    · rw [UMap.val_set_of_ne _ _ hij, UMap.val_set_of_ne _ _ hik]
    · rfl

theorem onlyLive_foldl_collideLive {k : ℕ} (js : List ℕ) {players : UMap ℕ (Player D F)}
    (hk : (players.val k).alive = true) : OnlyLive players (js.foldl (collideLive k) players) := by
  induction js generalizing players with
  | nil => exact .refl players
  | cons j js ih =>
    have hfirst := onlyLive_collideLive hk j
    exact hfirst.trans (ih ((hfirst.centres.alive k).trans hk))

theorem onlyLive_collidePlayerLive {m : GameMap D} {players players' : UMap ℕ (Player D F)} {k : ℕ}
    (h : collidePlayerLive m players k = some players') : OnlyLive players players' := by
  unfold collidePlayerLive at h
  split_ifs at h with halive
  · exact Option.some.inj h ▸ .refl players
  · obtain ⟨p, hp, rfl⟩ := Option.map_eq_some_iff.mp h
    have hk : (players.val k).alive = true := by simpa using halive
    have hfold := onlyLive_foldl_collideLive players.keys hk
    exact hfold.trans (.set ((hfold.centres.alive k).trans hk) (moved_collideMap hp))

theorem onlyLive_liveCollisions {m : GameMap D} {players players' : UMap ℕ (Player D F)}
    (h : liveCollisions m players = some players') : OnlyLive players players' :=
  Lts.run_invariant h (.refl players) fun _ _ _ _ hI hstep =>
    hI.trans (onlyLive_collidePlayerLive hstep)

/-! ## Two states that agree on the living -/

/-- The same keys; the players of `S` are equal, all others are dead in both maps. -/
structure Agree (S : ℕ → Prop) (players₁ players₂ : UMap ℕ (Player D F)) : Prop where
  keys : players₂.keys = players₁.keys
  live : ∀ k ∈ players₁.keys, S k → players₂.val k = players₁.val k
  dead : ∀ k ∈ players₁.keys, ¬ S k →
    (players₁.val k).alive = false ∧ (players₂.val k).alive = false

namespace Agree

variable {S : ℕ → Prop} {players₁ players₂ : UMap ℕ (Player D F)}

theorem alive (h : Agree S players₁ players₂) {k : ℕ} (hk : k ∈ players₁.keys) :
    (players₂.val k).alive = (players₁.val k).alive := by
  by_cases hS : S k
  · rw [h.live k hk hS]
  · rw [(h.dead k hk hS).1, (h.dead k hk hS).2]

theorem of_alive (h : Agree S players₁ players₂) {k : ℕ} (hk : k ∈ players₁.keys)
    (halive : (players₁.val k).alive = true) : S k ∧ players₂.val k = players₁.val k := by
  have hS : S k := by
    by_contra hS
    rw [(h.dead k hk hS).1] at halive
    cases halive
  exact ⟨hS, h.live k hk hS⟩

theorem set (h : Agree S players₁ players₂) {k : ℕ} (hS : S k) (p : Player D F) :
    Agree S (players₁.set k p) (players₂.set k p) := by
  refine ⟨h.keys, fun j hj hSj => ?_, fun j hj hSj => ?_⟩
  · rw [UMap.val_set, UMap.val_set, h.live j hj hSj]
  · have hjk : j ≠ k := by
      rintro rfl
      exact hSj hS
    rw [UMap.val_set_of_ne _ _ hjk, UMap.val_set_of_ne _ _ hjk]
    exact h.dead j hj hSj

theorem mapVals (h : Agree S players₁ players₂) {f : Player D F → Player D F}
    (hf : ∀ p, (f p).alive = p.alive) : Agree S (players₁.mapVals f) (players₂.mapVals f) := by
  refine ⟨h.keys, fun k hk hS => ?_, fun k hk hS => ?_⟩
  · rw [UMap.val_mapVals, UMap.val_mapVals, h.live k hk hS]
  · rw [UMap.val_mapVals, UMap.val_mapVals, hf, hf]
    exact h.dead k hk hS

/-- `operator[]` inserts the same dead player in both maps. -/
theorem index (h : Agree S players₁ players₂) (ρ : Rehash ℕ) (k : ℕ) :
    Agree S (players₁.index ρ k (Player.new 0)) (players₂.index ρ k (Player.new 0)) := by
  have hval : ∀ j ∈ (players₁.index ρ k (Player.new 0)).keys,
      j = k ∧ k ∉ players₁.keys ∨ ¬ (j = k ∧ k ∉ players₁.keys) ∧ j ∈ players₁.keys := by
    intro j hj
    by_cases hnew : j = k ∧ k ∉ players₁.keys
    · exact .inl hnew
    · refine .inr ⟨hnew, ?_⟩
      rcases (UMap.mem_keys_index ρ players₁ _).mp hj with rfl | hj
      · by_contra hk
        exact hnew ⟨rfl, hk⟩
      · exact hj
  refine ⟨UMap.keys_index_congr ρ h.keys k _ _, fun j hj hS => ?_, fun j hj hS => ?_⟩
  · rw [UMap.val_index, UMap.val_index, h.keys]
    rcases hval j hj with hnew | ⟨hold, hj⟩
    · rw [if_pos hnew, if_pos hnew]
    · rw [if_neg hold, if_neg hold, h.live j hj hS]
  · rw [UMap.val_index, UMap.val_index, h.keys]
    rcases hval j hj with hnew | ⟨hold, hj⟩
    · rw [if_pos hnew, if_pos hnew]
      exact ⟨rfl, rfl⟩
    · rw [if_neg hold, if_neg hold]
      exact h.dead j hj hS

/-! ### The player loops -/

theorem collideLive (h : Agree S players₁ players₂) {k j : ℕ} (hS : S k)
    (hk : k ∈ players₁.keys) (hj : j ∈ players₁.keys) :
    Agree S (collideLive k players₁ j) (PRShooter.collideLive k players₂ j) := by
  unfold PRShooter.collideLive
  rw [h.alive hj]
  split_ifs with hdead
  · exact h
  · obtain ⟨hSj, hvalj⟩ := h.of_alive hj (by simpa using hdead)
    unfold collidePlayers
    rw [h.live k hk hS, hvalj]
    split_ifs
    · exact h
    · exact (h.set hS _).set hSj _
    · exact h

theorem foldl_collideLive {k : ℕ} (hS : S k) (js : List ℕ) :
    ∀ {players₁ players₂ : UMap ℕ (Player D F)}, Agree S players₁ players₂ →
      k ∈ players₁.keys → js ⊆ players₁.keys →
      Agree S (js.foldl (PRShooter.collideLive k) players₁)
        (js.foldl (PRShooter.collideLive k) players₂) := by
  induction js with
  | nil => exact fun h _ _ => h
  | cons j js ih =>
    intro players₁ players₂ h hk hjs
    have hkeys : (PRShooter.collideLive k players₁ j).keys = players₁.keys := by
      unfold PRShooter.collideLive
      split_ifs
      · rfl
      · exact (onlyCentres_collidePlayers k players₁ j).1
    refine ih (h.collideLive hS hk (hjs List.mem_cons_self)) ?_ ?_
    · rwa [hkeys]
    · rw [hkeys]
      intro i hi
      exact hjs (List.mem_cons_of_mem _ hi)

theorem collidePlayerLive (h : Agree S players₁ players₂) (m : GameMap D) {k : ℕ}
    (hk : k ∈ players₁.keys) :
    Option.Rel (Agree S) (collidePlayerLive m players₁ k)
      (PRShooter.collidePlayerLive m players₂ k) := by
  unfold PRShooter.collidePlayerLive
  rw [h.alive hk]
  split_ifs with hdead
  · exact .some h
  · obtain ⟨hS, -⟩ := h.of_alive hk (by simpa using hdead)
    have hfold := foldl_collideLive hS players₁.keys h hk (List.Subset.refl _)
    have hkfold : k ∈ (players₁.keys.foldl (PRShooter.collideLive k) players₁).keys := by
      rw [(onlyLive_foldl_collideLive players₁.keys (by simpa using hdead)).centres.1]
      exact hk
    rw [h.keys]
    simp only [hfold.live k hkfold hS]
    cases collideMap m ((players₁.keys.foldl (PRShooter.collideLive k) players₁).val k) with
    | none => exact .none
    | some p => exact .some (hfold.set hS p)

theorem liveCollisions (h : Agree S players₁ players₂) (m : GameMap D) :
    Option.Rel (Agree S) (liveCollisions m players₁) (PRShooter.liveCollisions m players₂) := by
  unfold PRShooter.liveCollisions
  rw [h.keys]
  -- the keys never change, so the loop only visits keys of the map
  have hrun : Option.Rel (fun u v => Agree S u v ∧ u.keys = players₁.keys)
      (Lts.run (PRShooter.collidePlayerLive m) players₁.keys players₁)
      (Lts.run (PRShooter.collidePlayerLive m) players₁.keys players₂) := by
    refine Lts.run_rel ?_ ⟨h, rfl⟩
    rintro u v k hk ⟨huv, hkeys⟩
    have hstep := huv.collidePlayerLive m (hkeys ▸ hk)
    generalize hu : PRShooter.collidePlayerLive m u k = a at hstep ⊢
    generalize PRShooter.collidePlayerLive m v k = b at hstep ⊢
    cases hstep with
    | none => exact .none
    | some hrel => exact .some ⟨hrel, (onlyLive_collidePlayerLive hu).centres.1.trans hkeys⟩
  generalize Lts.run (PRShooter.collidePlayerLive m) players₁.keys players₁ = a at hrun ⊢
  generalize Lts.run (PRShooter.collidePlayerLive m) players₁.keys players₂ = b at hrun ⊢
  cases hrun with
  | none => exact .none
  | some hrel => exact .some hrel.1

/-! ### The projectile loop -/

theorem hitPlayer (h : Agree S players₁ players₂) (p : Projectile D) :
    p.hitPlayer players₂ = p.hitPlayer players₁ := by
  unfold Projectile.hitPlayer
  rw [h.keys]
  refine List.find?_congr fun k hk => ?_
  by_cases hS : S k
  · rw [h.live k hk hS]
  · rw [(h.dead k hk hS).1, (h.dead k hk hS).2]
    rfl

theorem damagePlayer (h : Agree S players₁ players₂) (ρ : Rehash ℕ) (ownerId : ℕ) {k : ℕ}
    (hk : k ∈ players₁.keys) (halive : (players₁.val k).alive = true) :
    Agree S (damagePlayer ρ players₁ ownerId k) (PRShooter.damagePlayer ρ players₂ ownerId k) := by
  obtain ⟨hS, hval⟩ := h.of_alive hk halive
  simp only [PRShooter.damagePlayer, hval]
  split_ifs
  · have hindex := (h.set hS { players₁.val k with
        alive := false, deaths := (players₁.val k).deaths + 1 }).index ρ ownerId
    by_cases hSowner : S ownerId
    · simp only [hindex.live ownerId (UMap.self_mem_keys_index _ _ _ _) hSowner]
      exact hindex.set hSowner _
    · refine ⟨hindex.keys, fun j hj hSj => ?_, fun j hj hSj => ?_⟩
      · have hne : j ≠ ownerId := by
          rintro rfl
          exact hSowner hSj
        rw [UMap.val_set_of_ne _ _ hne, UMap.val_set_of_ne _ _ hne]
        exact hindex.live j hj hSj
      · have hdead := hindex.dead j hj hSj
        rw [UMap.val_set, UMap.val_set]
        split_ifs with hj'
        · subst hj'
          exact hdead
        · exact hdead
  · exact h.set hS _

theorem checkProjectileCollisions (h : Agree S players₁ players₂) (ρ : Rehash ℕ) (m : GameMap D)
    (p : Projectile D) :
    Option.Rel (fun a b => b.1 = a.1 ∧ Agree S a.2 b.2)
      (checkProjectileCollisions ρ m players₁ p)
      (PRShooter.checkProjectileCollisions ρ m players₂ p) := by
  unfold PRShooter.checkProjectileCollisions
  rw [h.hitPlayer]
  split_ifs
  · exact .some ⟨rfl, h⟩
  · cases hhit : p.hitPlayer players₁ with
    | some k =>
      have halive : (players₁.val k).alive = true := by
        have := List.find?_some hhit
        simp only [Bool.and_eq_true] at this
        exact this.1.1
      exact .some ⟨rfl, h.damagePlayer ρ p.ownerId (List.mem_of_find?_eq_some hhit) halive⟩
    | none =>
      cases borderEdges m.borders with
      | none => exact .none
      | some edges => exact .some ⟨rfl, h⟩

theorem projectileLoop (ρ : Rehash ℕ) (m : GameMap D) (ps : List (Projectile D)) :
    ∀ {players₁ players₂ : UMap ℕ (Player D F)}, Agree S players₁ players₂ →
      Option.Rel (fun a b => Agree S a.1 b.1 ∧ b.2 = a.2) (projectileLoop ρ m players₁ ps)
        (PRShooter.projectileLoop ρ m players₂ ps) := by
  induction ps with
  | nil => exact fun h => .some ⟨h, rfl⟩
  | cons p ps ih =>
    intro players₁ players₂ h
    have hcheck := h.checkProjectileCollisions ρ m p
    unfold PRShooter.projectileLoop
    generalize PRShooter.checkProjectileCollisions ρ m players₁ p = a at hcheck ⊢
    generalize PRShooter.checkProjectileCollisions ρ m players₂ p = b at hcheck ⊢
    cases hcheck with
    | none => exact .none
    | @some x y hxy =>
      obtain ⟨hit, players₁'⟩ := x
      obtain ⟨hit', players₂'⟩ := y
      obtain ⟨rfl, hrel⟩ : hit' = hit ∧ Agree S players₁' players₂' := hxy
      have hloop := ih hrel
      show Option.Rel _ ((PRShooter.projectileLoop ρ m players₁' ps).bind _)
        ((PRShooter.projectileLoop ρ m players₂' ps).bind _)
      generalize PRShooter.projectileLoop ρ m players₁' ps = c at hloop ⊢
      generalize PRShooter.projectileLoop ρ m players₂' ps = d at hloop ⊢
      cases hloop with
      | none => exact .none
      | @some x y hxy =>
        refine .some ⟨hxy.1, ?_⟩
        show (if _ then y.2 else _) = if _ then x.2 else _
        rw [hxy.2]

end Agree

/-! ## The tick -/

/-- The same map, projectiles, keys and alive flags, and equal players under the keys of the alive.
The dead may differ in anything else. -/
structure AgreeOnLive (g₁ g₂ : Game D F) : Prop where
  gameMap : g₂.gameMap = g₁.gameMap
  projectiles : g₂.projectiles = g₁.projectiles
  keys : g₂.players.keys = g₁.players.keys
  alive : ∀ k ∈ g₁.players.keys, (g₂.players.val k).alive = (g₁.players.val k).alive
  live : ∀ k ∈ g₁.players.keys, (g₁.players.val k).alive = true →
    g₂.players.val k = g₁.players.val k

/-- Every dead player of `g` is where it was. -/
def DeadUnmoved (g g' : Game D F) : Prop :=
  ∀ k ∈ g.players.keys, (g.players.val k).alive = false →
    (g'.players.val k).centre = (g.players.val k).centre

/-- What a tick makes of two states does not depend on the dead: the same projectiles, and the same
position, health and alive flag for every player that was alive; and no dead player is moved. -/
def DeadTakeNoPart (ρ : Rehash ℕ) (g₁ g₂ : Game D F) : Prop :=
  Option.Rel (fun g₁' g₂' =>
      g₂'.projectiles = g₁'.projectiles ∧
      (∀ k ∈ g₁.players.keys, (g₁.players.val k).alive = true →
        (g₂'.players.val k).centre = (g₁'.players.val k).centre ∧
        (g₂'.players.val k).health = (g₁'.players.val k).health ∧
        (g₂'.players.val k).alive = (g₁'.players.val k).alive) ∧
      DeadUnmoved g₁ g₁' ∧ DeadUnmoved g₂ g₂')
    (tick ρ g₁) (tick ρ g₂)

theorem AgreeOnLive.agree {g₁ g₂ : Game D F} (h : AgreeOnLive g₁ g₂) :
    Agree (fun k => (g₁.players.val k).alive = true) g₁.players g₂.players where
  keys := h.keys
  live := h.live
  dead k hk hS := by
    rw [h.alive k hk]
    simpa using hS

/-- A tick among the alive leaves the dead where they are. -/
theorem deadUnmoved_tick {ρ : Rehash ℕ} {g g' : Game D F} (hdead : DeadUntouched g)
    (h : tick ρ g = some g') : DeadUnmoved g g' := by
  obtain ⟨players, players', projectiles, hplayers, hloop, rfl⟩ := tick_eq_some.mp h
  rw [checkPlayerCollisions_eq_live hdead] at hplayers
  have hlive := (onlyLive_updatePositions g).trans (onlyLive_liveCollisions hplayers)
  intro k hk halive
  have hk' : k ∈ players.keys := hlive.centres.1 ▸ hk
  have hcircle := (onlyHits_projectileLoop hloop).circle k hk'
  rw [hlive.dead k halive] at hcircle
  exact congrArg Circle.centre hcircle

theorem agree_tick (ρ : Rehash ℕ) {g₁ g₂ : Game D F} (hagree : AgreeOnLive g₁ g₂)
    (h₁ : DeadUntouched g₁) (h₂ : DeadUntouched g₂) :
    Option.Rel (fun g₁' g₂' => g₂'.projectiles = g₁'.projectiles ∧
        Agree (fun k => (g₁.players.val k).alive = true) g₁'.players g₂'.players)
      (tick ρ g₁) (tick ρ g₂) := by
  have hstart := hagree.agree.mapVals (f := Player.advance) fun p => by
    unfold Player.advance
    split_ifs <;> rfl
  have hplayers := hstart.liveCollisions g₁.gameMap
  have hlive₁ := checkPlayerCollisions_eq_live h₁
  have hlive₂ := checkPlayerCollisions_eq_live h₂
  rw [hagree.gameMap] at hlive₂
  show Option.Rel _ ((checkPlayerCollisions g₁.gameMap (updatePositions g₁).players).bind _)
    ((checkPlayerCollisions g₂.gameMap (updatePositions g₂).players).bind _)
  rw [hagree.gameMap, hlive₁, hlive₂]
  show Option.Rel _ ((liveCollisions g₁.gameMap (g₁.players.mapVals Player.advance)).bind _)
    ((liveCollisions g₁.gameMap (g₂.players.mapVals Player.advance)).bind _)
  generalize liveCollisions g₁.gameMap (g₁.players.mapVals Player.advance) = a at hplayers ⊢
  generalize liveCollisions g₁.gameMap (g₂.players.mapVals Player.advance) = b at hplayers ⊢
  cases hplayers with
  | none => exact .none
  | @some players₁ players₂ hrel =>
    have hloop := Agree.projectileLoop ρ g₁.gameMap (updatePositions g₁).projectiles hrel
    have hprojectiles : (updatePositions g₂).projectiles = (updatePositions g₁).projectiles :=
      congrArg (List.map Projectile.advance) hagree.projectiles
    show Option.Rel _
      ((projectileLoop ρ g₁.gameMap players₁ (updatePositions g₁).projectiles).bind _)
      ((projectileLoop ρ g₂.gameMap players₂ (updatePositions g₂).projectiles).bind _)
    rw [hprojectiles, hagree.gameMap]
    generalize projectileLoop ρ g₁.gameMap players₁ (updatePositions g₁).projectiles = c
      at hloop ⊢
    generalize projectileLoop ρ g₁.gameMap players₂ (updatePositions g₁).projectiles = d
      at hloop ⊢
    cases hloop with
    | none => exact .none
    | some hend => exact .some ⟨hend.2, hend.1⟩

/-- **The dead take no part.** In two states that agree on the living, and in each of which no
alive player meets a dead one while the living are resolved, a tick does the same to the living and
leaves the dead where they are. -/
theorem deadTakeNoPart_of_untouched (ρ : Rehash ℕ) (g₁ g₂ : Game D F) (hagree : AgreeOnLive g₁ g₂)
    (h₁ : DeadUntouched g₁) (h₂ : DeadUntouched g₂) : DeadTakeNoPart ρ g₁ g₂ := by
  have htick := agree_tick ρ hagree h₁ h₂
  unfold DeadTakeNoPart
  generalize hg₁ : tick ρ g₁ = a at htick ⊢
  generalize hg₂ : tick ρ g₂ = b at htick ⊢
  cases htick with
  | none => exact .none
  | @some g₁' g₂' hrel =>
    refine .some ⟨hrel.1, fun k hk halive => ?_, deadUnmoved_tick h₁ hg₁, deadUnmoved_tick h₂ hg₂⟩
    have hval := hrel.2.live k (keys_subset_tick hg₁ hk) halive
    rw [hval]
    exact ⟨rfl, rfl, rfl⟩

/-! ## A player who has not spawned -/

/-- Player 1 has spawned on the square; player 2 is connected but not alive. -/
def lurker (draw : ℤ × ℤ) (c : Point ℝ) : Game ℝ ℝ where
  gameMap := squareMap
  players :=
    { keys := [1, 2]
      nodup := by decide
      val := fun k => if k = 1 then newlySpawned 1 draw else { Player.new 2 with centre := c } }
  projectiles := []

theorem agreeOnLive_lurker (draw : ℤ × ℤ) (c c' : Point ℝ) :
    AgreeOnLive (lurker draw c) (lurker draw c') where
  gameMap := rfl
  projectiles := rfl
  keys := rfl
  alive k _ := by
    simp only [lurker]
    split_ifs <;> rfl
  live k _ halive := by
    simp only [lurker] at halive ⊢
    split_ifs at halive ⊢
    · rfl
    · simp [Player.new] at halive

/-- Far from the player who is alive, the one who is not is left alone. -/
theorem deadUntouched_lurker {draw : ℤ × ℤ} {c : Point ℝ}
    (hfar : checkCollisionCircle ⟨drawnPoint draw, 30⟩ ⟨c, 30⟩ = false) :
    DeadUntouched (lurker draw c) := by
  have hlive : ((updatePositions (lurker draw c)).players.val 1).alive = true := rfl
  have hdead : ((updatePositions (lurker draw c)).players.val 2).alive = false := rfl
  have hcircle : ((updatePositions (lurker draw c)).players.val 2).toCircle = ⟨c, 30⟩ := by
    norm_num [updatePositions, lurker, Player.new, Player.advance, Constants.playerRadius]
  refine ⟨fun _ => ⟨fun hone => ?_, fun u hu => ⟨fun _ => ?_, fun _ _ => trivial⟩⟩,
    fun u hu => ⟨fun htwo => ?_, fun _ _ => trivial⟩⟩
  · rw [hlive] at hone
    cases hone
  · have hself : collideLive 1 (updatePositions (lurker draw c)).players 1
        = (updatePositions (lurker draw c)).players := by
      simp [collideLive, collidePlayers]
    obtain rfl := (Option.some.inj hu).symm.trans hself
    rw [hcircle]
    exact (congrArg (checkCollisionCircle · _) (advance_circle_newlySpawned 1 draw)).trans hfar
  · rw [(onlyLive_collidePlayerLive hu).centres.alive 2, hdead] at htwo
    cases htwo

theorem deadTakeNoPart_of_untouched_lurker :
    DeadTakeNoPart Rehash.front (lurker (500, 0) 0) (lurker (500, 0) ⟨-500, 0⟩) := by
  refine deadTakeNoPart_of_untouched Rehash.front _ _ (agreeOnLive_lurker _ _ _)
    (deadUntouched_lurker ?_) (deadUntouched_lurker ?_) <;>
  · rw [← Bool.not_eq_true, checkCollisionCircle_iff, distance_sq]
    norm_num [drawnPoint]

/-- In the resolution of two overlapping players with different centres the second one moves. -/
theorem centre_ne_of_contact {players : UMap ℕ (Player ℝ F)} {k j : ℕ} (hne : j ≠ k)
    (hcontact : checkCollisionCircle (players.val k).toCircle (players.val j).toCircle = true)
    (hr : 0 ≤ (players.val k).r + (players.val j).r)
    (hcentre : (players.val k).centre ≠ (players.val j).centre) :
    ((collidePlayers k players j).val j).centre ≠ (players.val j).centre := by
  have hmoved : ((collidePlayers k players j).val j).centre = (players.val j).centre
      - pushVector (players.val k).toCircle (players.val j).toCircle
        * halfOverlap (players.val k).toCircle (players.val j).toCircle := by
    simp [collidePlayers, hne, hcontact, moveAlongNormalPlayer_eq]
  have hhalf := halfOverlap_pos hr hcontact
  have hdist := distance_pos hcentre
  rw [hmoved]
  intro hsame
  have hx := congrArg Point.x hsame
  have hy := congrArg Point.y hsame
  simp only [pushVector, Point.sub_x, Point.sub_y, Point.mul_x, Point.mul_y, Point.div_x,
    Point.div_y, sub_eq_self, mul_eq_zero, div_eq_zero_iff, hhalf.ne', hdist.ne', or_false] at hx hy
  exact hcentre (Point.ext' (by linarith) (by linarith))

/-- Of two players only the first is alive: its turn decides what the second becomes. -/
theorem val_of_last_dead {m : GameMap D} {players players' : UMap ℕ (Player D F)} {k j : ℕ}
    (hne : j ≠ k) (hkeys : players.keys = [k, j]) (hk : (players.val k).alive = true)
    (hj : (players.val j).alive = false) (h : checkPlayerCollisions m players = some players') :
    players'.val j = (collidePlayers k players j).val j := by
  unfold checkPlayerCollisions at h
  rw [hkeys, Lts.run_cons] at h
  obtain ⟨u, hu, hrest⟩ := Option.bind_eq_some_iff.mp h
  have hdead : (u.val j).alive = false := ((onlyCentres_collidePlayer hu).alive j).trans hj
  have hstay : collidePlayer m u j = some u := if_pos hdead
  rw [Lts.run_cons, hstay] at hrest
  obtain rfl : u = players' := Option.some.inj hrest
  rw [collidePlayer, if_neg (by simp [hk])] at hu
  obtain ⟨p, -, rfl⟩ := Option.map_eq_some_iff.mp hu
  have hself : collidePlayers k players k = players := if_pos rfl
  rw [UMap.val_set_of_ne _ _ hne, hkeys, List.foldl_cons, hself]
  rfl

/-- An alive player pushes one who has not spawned. -/
theorem dead_player_pushed : ¬ ∀ (ρ : Rehash ℕ) (g₁ g₂ : Game ℝ ℝ), AgreeOnLive g₁ g₂ →
    DeadTakeNoPart ρ g₁ g₂ := by
  intro h
  have hpart := h Rehash.front _ _ (agreeOnLive_lurker (30, 0) 0 0)
  obtain ⟨g', hg'⟩ := Option.isSome_iff_exists.mp
    (tick_isSome (g := lurker (30, 0) 0) convexBorder_squareMap.1 Rehash.front)
  unfold DeadTakeNoPart at hpart
  rw [hg'] at hpart
  cases hpart with
  | some hpart =>
    have hunmoved := hpart.2.2.1 2 (by simp [lurker]) rfl
    obtain ⟨players, players', projectiles, hplayers, hloop, rfl⟩ := tick_eq_some.mp hg'
    set start := (updatePositions (lurker (30, 0) 0)).players with hstart
    have hk : start.val 1 = (newlySpawned 1 (30, 0)).advance := rfl
    have hj : (start.val 2).toCircle = ⟨0, 30⟩ := by
      norm_num [hstart, updatePositions, lurker, Player.new, Player.advance,
        Constants.playerRadius]
    have hturn : (players.val 2).centre = ((collidePlayers 1 start 2).val 2).centre := by
      rw [val_of_last_dead (by decide) rfl rfl rfl hplayers]
    have hcontact : checkCollisionCircle (start.val 1).toCircle (start.val 2).toCircle = true := by
      rw [hk, advance_circle_newlySpawned, hj, checkCollisionCircle_iff, distance_sq]
      norm_num [drawnPoint]
    have hcentre : (players'.val 2).centre = (players.val 2).centre := by
      have htwo : 2 ∈ players.keys := by
        rw [(onlyCentres_checkPlayerCollisions hplayers).1]
        exact List.mem_cons_of_mem _ List.mem_cons_self
      exact congrArg Circle.centre ((onlyHits_projectileLoop hloop).circle 2 htwo)
    have hone : (start.val 1).toCircle = ⟨⟨30, 0⟩, 30⟩ := by
      rw [hk, advance_circle_newlySpawned]
      norm_num [drawnPoint]
    refine centre_ne_of_contact (by decide) hcontact ?_ ?_ (hturn.symm.trans
      (hcentre.symm.trans hunmoved))
    · rw [hone, hj]
      norm_num
    · rw [hone, hj]
      intro h
      exact by simpa using congrArg Point.x h

end PRShooter
