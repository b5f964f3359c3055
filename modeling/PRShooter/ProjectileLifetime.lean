import PRShooter.ProjectileRange
import PRShooter.ClientParts
import Mathlib.Topology.MetricSpace.Bounded

/-!
# How long projectiles last

A projectile flies straight, 1.5 in a tick. On a convex border a tick leaves it only inside, so it
is gone before the ticks would carry it across the region. The projectiles of a game are therefore
never more than the shots of its last ticks (`projectiles_le_shots`).
-/

set_option linter.unusedSectionVars false

namespace PRShooter

/-! ## Flight -/

/-- A projectile after some ticks in which it has hit nothing. -/
noncomputable def Projectile.flown (p : Projectile ℝ) (n : ℕ) : Projectile ℝ :=
  Projectile.advance^[n] p

theorem flown_succ (p : Projectile ℝ) (n : ℕ) : p.flown (n + 1) = (p.flown n).advance :=
  Function.iterate_succ_apply' ..

theorem velocity_flown (p : Projectile ℝ) (n : ℕ) : (p.flown n).velocity = p.velocity := by
  induction n with
  | zero => rfl
  | succ n ih => rw [flown_succ, ← ih]; rfl

theorem centre_flown (p : Projectile ℝ) (n : ℕ) : (p.flown n).centre =
    ⟨p.centre.x + n * (p.velocity.x * 1.5), p.centre.y + n * (p.velocity.y * 1.5)⟩ := by
  induction n with
  | zero => apply Point.ext' <;> simp [Projectile.flown]
  | succ n ih =>
    rw [flown_succ, advance_centre, ih, velocity_flown]
    apply Point.ext' <;> push_cast <;> ring

/-- The way a projectile has flown is 1.5 long for each tick. -/
theorem dist_flown {p : Projectile ℝ} (hunit : p.velocity.length = 1) (n : ℕ) :
    dist p.centre.toPlane (p.flown n).centre.toPlane = 1.5 * n := by
  have hsq := length_sq p.velocity
  have hsquare : ((p.flown n).centre.x - p.centre.x) ^ 2 + ((p.flown n).centre.y - p.centre.y) ^ 2
      = (1.5 * n : ℝ) ^ 2 := by
    rw [centre_flown]
    have hexpand : (p.centre.x + n * (p.velocity.x * 1.5) - p.centre.x) ^ 2
        + (p.centre.y + n * (p.velocity.y * 1.5) - p.centre.y) ^ 2
        = (1.5 * n) ^ 2 * (p.velocity.x ^ 2 + p.velocity.y ^ 2) := by ring
    rw [hexpand, ← hsq, hunit]
    ring
  rw [dist_toPlane, distance_eq, hsquare, Real.sqrt_sq (by positivity)]

/-! ## The region is bounded -/

theorem isBounded_region (m : GameMap ℝ) : Bornology.IsBounded m.region := by
  have hfinite : {z | ∃ p ∈ m.borders, z = p.toPlane}.Finite := by
    refine ((List.finite_toSet m.borders).image Point.toPlane).subset ?_
    rintro z ⟨p, hp, rfl⟩
    exact ⟨p, hp, rfl⟩
  exact isBounded_convexHull.mpr hfinite.isBounded

/-- A projectile that is inside after some of its ticks has not flown across the region. -/
theorem flown_le_diam {m : GameMap ℝ} {p : Projectile ℝ} {n : ℕ} (hunit : p.velocity.length = 1)
    (hin : p.centre.toPlane ∈ m.region) (hout : (p.flown n).centre.toPlane ∈ m.region) :
    1.5 * n ≤ Metric.diam m.region := by
  rw [← dist_flown hunit]
  exact Metric.dist_le_diam_of_mem (isBounded_region m) hin hout

/-! ## Old projectiles and new ones -/

def GameEvent.isTick {D F : Type} : GameEvent D F → Bool
  | .tick _ => true
  | _ => false

def GameEvent.isShot {D F : Type} : GameEvent D F → Bool
  | .shoot _ _ => true
  | _ => false

/-- The projectile was there `k` ticks ago: it has flown for all of them, the first of which has
left it inside. -/
def OldFor (m : GameMap ℝ) (k : ℕ) (q : Projectile ℝ) : Prop :=
  k = 0 ∨ (q.centre.toPlane ∈ m.region ∧
    ∃ p : Projectile ℝ, p.centre.toPlane ∈ m.region ∧ p.velocity.length = 1 ∧ q = p.flown (k - 1))

/-- All but `shots` of the projectiles were there `ticks` ticks ago. -/
def AllButOld (m : GameMap ℝ) (ticks shots : ℕ) (g : Game ℝ ℝ) : Prop :=
  ∃ old new, g.projectiles = old ++ new ∧ new.length ≤ shots ∧ ∀ q ∈ old, OldFor m ticks q

variable {m : GameMap ℝ} {g g' : Game ℝ ℝ} {ticks shots : ℕ}

theorem allButOld_zero (m : GameMap ℝ) (g : Game ℝ ℝ) : AllButOld m 0 0 g :=
  ⟨g.projectiles, [], (List.append_nil _).symm, le_rfl, fun _ _ => .inl rfl⟩

/-- The projectiles of `old` that are left have flown for one more tick. -/
theorem OldFor.advance {q : Projectile ℝ} (h : OldFor m ticks q)
    (hin : q.advance.centre.toPlane ∈ m.region) (hunit : q.advance.velocity.length = 1) :
    OldFor m (ticks + 1) q.advance := by
  rcases h with rfl | ⟨-, p, hp, hpunit, rfl⟩
  · exact .inr ⟨hin, q.advance, hin, hunit, rfl⟩
  · cases ticks with
    | zero => exact .inr ⟨hin, _, hin, hunit, rfl⟩
    | succ k => exact .inr ⟨hin, p, hp, hpunit, (flown_succ p k).symm⟩

theorem AllButOld.tick (hm : m.ConvexBorder) (hg : ProjectilesInRange m g)
    (h : AllButOld m ticks shots g) {ρ : Rehash ℕ} (htick : PRShooter.tick ρ g = some g') :
    AllButOld m (ticks + 1) shots g' := by
  obtain ⟨old, new, hsplit, hnew, hold⟩ := h
  obtain ⟨hsub, -⟩ := clear_of_tick htick
  have hinside := inside_of_tick hm hg htick
  rw [hsplit, List.map_append] at hsub
  obtain ⟨old', new', hsplit', hsub', hsub''⟩ := List.sublist_append_iff.mp hsub
  refine ⟨old', new', hsplit', ?_, fun q hq => ?_⟩
  · have hlength := hsub''.length_le
    rw [List.length_map] at hlength
    exact hlength.trans hnew
  · obtain ⟨p, hp, rfl⟩ := List.mem_map.mp (hsub'.subset hq)
    obtain ⟨hin, -, hunit⟩ := hinside _ (hsplit' ▸ List.mem_append_left new' hq)
    exact (hold p hp).advance hin hunit

theorem AllButOld.step (hm : m.ConvexBorder) (hg : ProjectilesInRange m g)
    (h : AllButOld m ticks shots g) {e : GameEvent ℝ ℝ} (hstep : g.step e = some g') :
    AllButOld m (ticks + if e.isTick then 1 else 0) (shots + if e.isShot then 1 else 0) g' := by
  obtain ⟨old, new, hsplit, hnew, hold⟩ := h
  -- most events leave the projectiles alone
  have hsame : g'.projectiles = g.projectiles → AllButOld m ticks shots g' := fun heq =>
    ⟨old, new, heq.trans hsplit, hnew, hold⟩
  cases e with
  | tick ρ => exact AllButOld.tick hm hg ⟨old, new, hsplit, hnew, hold⟩ hstep
  | shoot ρ d =>
    obtain rfl := Option.some.inj hstep
    obtain ⟨fired, hfired, hone⟩ : ∃ fired, (shootProjectile ρ g d).projectiles
        = g.projectiles ++ fired ∧ fired.length ≤ 1 :=
      ⟨_, projectiles_shootProjectile ρ g d, by split_ifs <;> simp⟩
    refine ⟨old, new ++ fired, ?_, ?_, hold⟩
    · rw [hfired, hsplit, List.append_assoc]
    · rw [List.length_append]
      exact Nat.add_le_add hnew hone
  | connect ρ d | disconnect d | changeOrientation ρ d angle =>
    obtain rfl := Option.some.inj hstep
    exact hsame rfl
  | spawn ρ d draw =>
    simp only [Game.step] at hstep
    split_ifs at hstep
    obtain rfl := Option.some.inj hstep
    exact hsame ((projectiles_apply ρ draw .spawn).trans (List.append_nil _))
  | changeMovement ρ d velocityX velocityY =>
    obtain rfl := Option.some.inj hstep
    exact hsame ((projectiles_apply ρ (0, 0)
      (.changeMovementDirection velocityX velocityY)).trans (List.append_nil _))

theorem AllButOld.run (hm : m.ConvexBorder) {es : List (GameEvent ℝ ℝ)}
    (hg : ProjectilesInRange m g) (h : AllButOld m ticks shots g)
    (hrun : Lts.run Game.step es g = some g') (hstay : Lts.Along Game.step ShotsStay es g) :
    AllButOld m (ticks + es.countP GameEvent.isTick) (shots + es.countP GameEvent.isShot) g' := by
  induction es generalizing g ticks shots with
  | nil =>
    obtain rfl : g = g' := by simpa using hrun
    simpa using h
  | cons e es ih =>
    obtain ⟨u, hu, hrest⟩ := Option.bind_eq_some_iff.mp hrun
    have hfinal := ih (inRange_step hm hg hstay.1 hu) (h.step hm hg hu) hrest (hstay.2 u hu)
    rw [List.countP_cons, List.countP_cons, Nat.add_comm (es.countP _), ← Nat.add_assoc,
      Nat.add_comm (es.countP _), ← Nat.add_assoc]
    exact hfinal

/-- **Projectiles do not last.** Take a run on a convex border in which every fired projectile stays
for its first step, and its last events, among them more ticks than it takes to fly across the
region. Whatever was fired before them is gone: the projectiles left are at most the shots among
these events. -/
theorem projectiles_le_shots (hm : m.ConvexBorder) {before last : List (GameEvent ℝ ℝ)}
    (hrun : Lts.run Game.step (before ++ last) (Game.initial m) = some g)
    (hstay : Lts.Along Game.step ShotsStay (before ++ last) (Game.initial m))
    (hticks : Metric.diam m.region < 1.5 * (last.countP GameEvent.isTick - 1 : ℕ)) :
    g.projectiles.length ≤ last.countP GameEvent.isShot := by
  rw [Lts.run_append] at hrun
  obtain ⟨u, hbefore, hlast⟩ := Option.bind_eq_some_iff.mp hrun
  obtain ⟨hstay, hstay'⟩ := hstay.of_append hbefore
  have hinitial : ProjectilesInRange m (Game.initial m : Game ℝ ℝ) :=
    ⟨rfl, fun p hp => absurd hp List.not_mem_nil⟩
  have hrange : ProjectilesInRange m u := (Lts.Reach.of_along hbefore hstay).invariant hinitial
    fun _ _ _ hI hok hstep => inRange_step hm hI hok hstep
  obtain ⟨old, new, hsplit, hnew, hold⟩ := (allButOld_zero m u).run hm hrange hlast hstay'
  rw [Nat.zero_add] at hnew hold
  -- a projectile from before would have flown across the region
  have hgone : old = [] := by
    refine List.eq_nil_iff_forall_not_mem.mpr fun q hq => ?_
    rcases hold q hq with hzero | ⟨hin, p, hp, hunit, rfl⟩
    · rw [hzero] at hticks
      have hdiam : 0 ≤ Metric.diam m.region := Metric.diam_nonneg
      norm_num at hticks
      linarith
    · exact absurd (flown_le_diam hunit hp hin) (not_le.mpr hticks)
  rw [hsplit, hgone]
  exact hnew

/-! ## A shot on the square -/

theorem diam_squareMap : Metric.diam squareMap.region ≤ 4000 := by
  refine Metric.diam_le_of_forall_dist_le (by norm_num) fun z hz w hw => ?_
  rw [region_squareMap, Complex.mem_reProdIm] at hz hw
  have hre : |(z - w).re| ≤ 2000 := by
    rw [Complex.sub_re, abs_le]
    constructor <;> linarith [hz.1.1, hz.1.2, hw.1.1, hw.1.2]
  have him : |(z - w).im| ≤ 2000 := by
    rw [Complex.sub_im, abs_le]
    constructor <;> linarith [hz.2.1, hz.2.2, hw.2.1, hw.2.2]
  rw [Complex.dist_eq]
  linarith [Complex.norm_le_abs_re_add_abs_im (z - w)]

/-- Ticks can follow each other for as long as one likes. -/
theorem exists_run_ticks (h : g.gameMap.borders ≠ []) (n : ℕ) :
    ∃ g', Lts.run Game.step (List.replicate n (.tick Rehash.front)) g = some g' ∧
      Lts.Along Game.step ShotsStay (List.replicate n (.tick Rehash.front)) g := by
  induction n generalizing g with
  | zero => exact ⟨g, rfl, trivial⟩
  | succ n ih =>
    obtain ⟨u, hu⟩ := Option.isSome_iff_exists.mp (tick_isSome h Rehash.front)
    have hmap : u.gameMap = g.gameMap := by
      obtain ⟨_, _, _, -, -, rfl⟩ := tick_eq_some.mp hu
      rfl
    have hstep : g.step (.tick Rehash.front) = some u := hu
    obtain ⟨g', hrun, hstay⟩ := ih (g := u) (hmap ▸ h)
    refine ⟨g', ?_, Lts.Along.cons hstep trivial hstay⟩
    rw [List.replicate_succ, Lts.run_cons, hstep]
    exact hrun

/-- A shot from the middle of the square is gone after 3000 ticks. -/
theorem projectiles_le_shots_fired : ∃ (n : ℕ) (g : Game ℝ ℝ), n = 3000 ∧
    Lts.run Game.step (List.replicate n (.tick Rehash.front)) (fired (0, 0)) = some g ∧
      g.projectiles = [] := by
  -- the number is kept a variable, so that nothing unfolds the list of ticks
  obtain ⟨n, hn⟩ : ∃ n : ℕ, n = 3000 := ⟨3000, rfl⟩
  have hborders : squareMap.borders ≠ [] := convexBorder_squareMap.1
  let events : List (GameEvent ℝ ℝ) :=
    [.connect Rehash.front 0, .spawn Rehash.front 0 (0, 0), .shoot Rehash.front 0]
  let ticks : List (GameEvent ℝ ℝ) := List.replicate n (.tick Rehash.front)
  have hdraw : DrawAllowed squareMap (0, 0) := drawAllowed_squareMap (by norm_num) (by norm_num)
  have hspawn : (Game.step (createNewPlayer Rehash.front (Game.initial squareMap) 0)
      (.spawn Rehash.front 0 (0, 0)) : Option (Game ℝ ℝ)) = some (spawned (0, 0)) := if_pos hdraw
  have hevents : Lts.run Game.step events (Game.initial squareMap) = some (fired (0, 0)) := by
    show (Game.step (createNewPlayer Rehash.front (Game.initial squareMap) 0)
      (.spawn Rehash.front 0 (0, 0))).bind _ = _
    rw [hspawn]
    rfl
  obtain ⟨g, hg, hstay⟩ := exists_run_ticks (g := fired (0, 0)) hborders n
  have hshot : ShotsStay (spawned (0, 0)) (.shoot Rehash.front 0) := by
    intro player hplayer _
    obtain rfl : newlySpawned 0 (0, 0) = player := by
      rw [← val_spawned (0, 0)]
      exact Option.some.inj hplayer
    refine .inl (mem_region_squareMap.mpr ?_)
    rw [advance_newlySpawned]
    norm_num
  have hall : Lts.Along Game.step ShotsStay (events ++ ticks) (Game.initial squareMap) :=
    Lts.Along.cons rfl trivial (Lts.Along.cons hspawn trivial (Lts.Along.cons rfl hshot hstay))
  have hrun : Lts.run Game.step (events ++ ticks) (Game.initial squareMap) = some g := by
    rw [Lts.run_append, hevents]
    exact hg
  have hcount : ticks.countP GameEvent.isTick = n := by
    simp [ticks, List.countP_replicate, GameEvent.isTick]
  have hlate : Metric.diam squareMap.region < 1.5 * (ticks.countP GameEvent.isTick - 1 : ℕ) := by
    rw [hcount, hn]
    exact diam_squareMap.trans_lt (by norm_num)
  have hnone := projectiles_le_shots convexBorder_squareMap hrun hall hlate
  have hshots : ticks.countP GameEvent.isShot = 0 := by
    simp [ticks, List.countP_replicate, GameEvent.isShot]
  exact ⟨n, g, hn, hg, List.eq_nil_of_length_eq_zero (by omega)⟩

end PRShooter
