import PRShooter.Spacing

/-!
# Ticks that divide by no zero

No event keeps the divisors of a tick from being zero (`divides_by_zero`). They are not zero if the
places before the collisions are resolved leave room for the pushes (`Spaced`), in any run.
-/

namespace PRShooter

variable {F : Type}

/-! ## One tick -/

section Runs

variable [Zero F]

theorem r_new (playerId : ℕ) : (Player.new playerId : Player ℝ F).r = 30 := by
  norm_num [Player.new, Constants.playerRadius]

namespace RadiusOk

variable {players players' : UMap ℕ (Player ℝ F)}

omit [Zero F] in
theorem all (h : RadiusOk players) : players.All fun _ p => p.r = 30 := h

theorem insert (h : RadiusOk players) (ρ : Rehash ℕ) (k playerId : ℕ) :
    RadiusOk (players.insert ρ k (Player.new playerId)) :=
  h.all.insert ρ (r_new playerId)

theorem index (h : RadiusOk players) (ρ : Rehash ℕ) (k : ℕ) :
    RadiusOk (players.index ρ k (Player.new 0)) :=
  h.all.index ρ (r_new 0)

/-- An entry that `operator[]` has made sure of is written back with the same radius. -/
theorem set_index (h : RadiusOk players) (ρ : Rehash ℕ) (k : ℕ) {p : Player ℝ F}
    (hp : p.r = ((players.index ρ k (Player.new 0)).val k).r) :
    RadiusOk ((players.index ρ k (Player.new 0)).set k p) :=
  (h.index ρ k).all.set fun hk => hp.trans (h.index ρ k k hk)

omit [Zero F] in
theorem erase (h : RadiusOk players) (k : ℕ) : RadiusOk (players.erase k) :=
  h.all.erase k

theorem onlyHits (h : RadiusOk players) (hhits : OnlyHits players players') :
    RadiusOk players' := by
  intro k hk
  by_cases hold : k ∈ players.keys
  · exact (congrArg Circle.r (hhits.circle k hold)).trans (h k hold)
  · exact (congrArg Circle.r (hhits.fresh k hk hold).1).trans (r_new 0)

/-- No event changes a radius. -/
theorem step [Trig F ℝ] {g g' : Game ℝ F} {e : GameEvent ℝ F} (h : RadiusOk g.players)
    (hstep : g.step e = some g') : RadiusOk g'.players := by
  cases e with
  | connect ρ k =>
    obtain rfl := Option.some.inj hstep
    exact h.insert ρ k k
  | disconnect k =>
    obtain rfl := Option.some.inj hstep
    exact h.erase k
  | spawn ρ k draw =>
    simp only [Game.step] at hstep
    split_ifs at hstep
    obtain rfl := Option.some.inj hstep
    simp only [spawnPlayer]
    split_ifs
    · exact h.set_index ρ k rfl
    · exact h.index ρ k
  | shoot ρ k =>
    obtain rfl := Option.some.inj hstep
    simp only [shootProjectile]
    split_ifs <;> exact h.index ρ k
  | changeOrientation ρ k angle =>
    obtain rfl := Option.some.inj hstep
    exact h.set_index ρ k rfl
  | changeMovement ρ k velocityX velocityY =>
    obtain rfl := Option.some.inj hstep
    unfold changePlayerMovement
    split_ifs
    · exact h.set_index ρ k rfl
    · exact h
  | tick ρ =>
    obtain ⟨players, players', projectiles, hplayers, hloop, rfl⟩ := tick_eq_some.mp hstep
    exact (h.onlyCentres ((onlyCentres_updatePositions g).trans
      (onlyCentres_checkPlayerCollisions hplayers))).onlyHits (onlyHits_projectileLoop hloop)

end RadiusOk

end Runs

/-! ## Two players who overlap -/

end PRShooter
