import PRShooter.Border
import PRShooter.CyclicLoop
import PRShooter.MapText

/-!
# Which edges of the border a tick tests

The loops of `checkCollisions` and `checkProjectileCollisions` over the border, index by index, with
the tests they make. Every index they read is that of a border point, and whoever goes through a
whole loop is tested against each edge once. But their bound is `borders.size() - 1`, which wraps
around if there is no border point: only the closing edge is guarded (`testsEveryEdge_iff`).
-/

set_option linter.unusedSectionVars false

namespace PRShooter

/-- Whom a test is about: the player of a key, or the projectile at a place of `projectiles`. -/
inductive Tested where
  | player (playerId : ℕ)
  | projectile (place : ℕ)
  deriving DecidableEq

/-- A test against the edge between the border points at two indices. -/
structure BorderTest where
  tested : Tested
  edge : ℕ × ℕ

/-- The edges somebody is tested against, in order. -/
def testsOf (tested : Tested) (tests : List BorderTest) : List (ℕ × ℕ) :=
  (tests.filter fun test => test.tested = tested).map BorderTest.edge

/-- The largest `size_t`. -/
def sizeMax : ℕ := 2 ^ 64 - 1

section Loops

variable {D F : Type} [Add D] [Sub D] [Mul D] [Div D] [Neg D] [One D] [NatCast D] [OfScientific D]
  [LT D] [LE D] [DecidableLT D] [DecidableLE D] [HasSqrt D]

/-! ## The loops -/

/-- The border loop of `checkCollisions`. -/
def collideBorders (borders : List (Point D)) (player : Player D F) :
    Option (CyclicLoop.Progress (Player D F)) :=
  CyclicLoop.run sizeMax borders (fun player P1 P2 => (false, collideBorder player (P1, P2))) player

/-- The border loop of `checkProjectileCollisions`, which returns `true` at the first hit. -/
def hitsBorders (borders : List (Point D)) (projectile : Circle D) :
    Option (CyclicLoop.Progress Unit) :=
  CyclicLoop.run sizeMax borders (fun _ P1 P2 => (checkCollisionSegment projectile P1 P2, ())) ()

/-- The body of the outer loop over the players, and the tests made so far. -/
def collidePlayerTested (m : GameMap D) (s : UMap ℕ (Player D F) × List BorderTest) (k : ℕ) :
    Option (UMap ℕ (Player D F) × List BorderTest) :=
  if (s.1.val k).alive = false then some s
  else
    let players := s.1.keys.foldl (collidePlayers k) s.1
    let player := m.obstacles.foldl collideObstacle (m.walls.foldl collideWall (players.val k))
    (collideBorders m.borders player).map fun loop =>
      (players.set k loop.state, s.2 ++ loop.visits.map (⟨.player k, ·⟩))

variable [Zero D] [Zero F]

/-- `checkProjectileCollisions`, and the tests it makes. -/
def checkProjectileCollisionsTested (ρ : Rehash ℕ) (m : GameMap D) (players : UMap ℕ (Player D F))
    (p : Projectile D) (place : ℕ) : Option ((Bool × UMap ℕ (Player D F)) × List BorderTest) :=
  if p.hitsObject m then some ((true, players), [])
  else
    match p.hitPlayer players with
    | some k => some ((true, damagePlayer ρ players p.ownerId k), [])
    | none => (hitsBorders m.borders p.toCircle).map fun loop =>
        ((loop.stopped, players), loop.visits.map (⟨.projectile place, ·⟩))

/-- The loop over the projectiles, each with its place, and the tests it makes. -/
def projectileLoopTested (ρ : Rehash ℕ) (m : GameMap D) :
    UMap ℕ (Player D F) → List (Projectile D × ℕ) →
      Option ((UMap ℕ (Player D F) × List (Projectile D × ℕ)) × List BorderTest)
  | players, [] => some ((players, []), [])
  | players, (p, place) :: ps => do
    let ((hit, players), tests) ← checkProjectileCollisionsTested ρ m players p place
    let ((players, left), more) ← projectileLoopTested ρ m players ps
    return ((players, if hit then left else (p, place) :: left), tests ++ more)

/-- `checkCollisions`, the places of the projectiles it leaves, and the tests it makes. -/
def checkCollisionsTested (ρ : Rehash ℕ) (g : Game D F) :
    Option (Game D F × List ℕ × List BorderTest) := do
  let (players, tests) ← Lts.run (collidePlayerTested g.gameMap) g.players.keys (g.players, [])
  let ((players, left), more) ← projectileLoopTested ρ g.gameMap players g.projectiles.zipIdx
  return ({ g with players, projectiles := left.map Prod.fst }, left.map Prod.snd, tests ++ more)

/-- `checkCollisions` returns without a read past the end of the border, and has tested every alive
player and every projectile that is left against each of the edges once. -/
def TestsEveryEdge (ρ : Rehash ℕ) (g : Game D F) : Prop :=
  ∃ g' left tests, checkCollisionsTested ρ g = some (g', left, tests) ∧
    (∀ test ∈ tests, test.edge ∈ CyclicLoop.indices g.gameMap.borders.length) ∧
    (∀ k ∈ g.players.keys, (g.players.val k).alive = true →
      testsOf (.player k) tests = CyclicLoop.indices g.gameMap.borders.length) ∧
    left.Sublist (List.range g.projectiles.length) ∧
    g'.projectiles = left.filterMap (g.projectiles[·]?) ∧
    ∀ place ∈ left,
      testsOf (.projectile place) tests = CyclicLoop.indices g.gameMap.borders.length

end Loops

/-! ## Tests -/

theorem testsOf_append (tested : Tested) (tests more : List BorderTest) :
    testsOf tested (tests ++ more) = testsOf tested tests ++ testsOf tested more := by
  simp [testsOf]

theorem testsOf_self (tested : Tested) (edges : List (ℕ × ℕ)) :
    testsOf tested (edges.map (⟨tested, ·⟩)) = edges := by
  simp [testsOf, List.filter_map, Function.comp_def]

theorem testsOf_other {tested : Tested} {tests : List BorderTest}
    (h : ∀ test ∈ tests, test.tested ≠ tested) : testsOf tested tests = [] := by
  unfold testsOf
  rw [List.map_eq_nil_iff, List.filter_eq_nil_iff]
  intro test htest hsame
  exact h test htest (of_decide_eq_true hsame)

section Spec

variable {D F : Type} [Add D] [Sub D] [Mul D] [Div D] [Neg D] [One D] [NatCast D] [OfScientific D]
  [LT D] [LE D] [DecidableLT D] [DecidableLE D] [HasSqrt D]

/-! ## The loops of the players -/

/-- The loop pushes the player off the edges of the border, and tests each of them. -/
theorem collideBorders_eq (m : GameMap D) (player : Player D F) :
    collideBorders m.borders player = (borderEdges m.borders).map fun edges =>
      ⟨false, edges.foldl collideBorder player, CyclicLoop.indices m.borders.length⟩ := by
  unfold collideBorders
  by_cases hne : m.borders = []
  · rw [hne, CyclicLoop.run_nil (by decide)]
    rfl
  · obtain ⟨visits, hrun, -, hall⟩ := CyclicLoop.run_eq sizeMax
      (fun player P1 P2 => (false, collideBorder player (P1, P2))) hne player
    rw [CyclicLoop.foldUntil_of_false] at hrun hall
    rw [hrun, hall rfl, borderEdges_eq hne]
    rfl

/-- The tests of a player in its turn. -/
def turnTests (m : GameMap D) (players : UMap ℕ (Player D F)) (k : ℕ) : List BorderTest :=
  if (players.val k).alive then
    (CyclicLoop.indices m.borders.length).map (⟨.player k, ·⟩)
  else []

theorem collidePlayerTested_eq (m : GameMap D) (s : UMap ℕ (Player D F) × List BorderTest)
    (k : ℕ) : collidePlayerTested m s k =
      (collidePlayer m s.1 k).map fun players => (players, s.2 ++ turnTests m s.1 k) := by
  unfold collidePlayerTested collidePlayer turnTests
  cases halive : (s.1.val k).alive with
  | false =>
    rw [if_pos rfl, if_pos rfl, if_neg Bool.false_ne_true, Option.map_some, List.append_nil]
  | true =>
    rw [if_neg (by decide), if_pos rfl, if_neg (by decide)]
    show Option.map _ (collideBorders m.borders _) = Option.map _ (Option.map _ (collideMap m _))
    rw [collideBorders_eq]
    unfold collideMap
    rw [Option.map_map, Option.map_map, Option.map_map]
    rfl

theorem run_collidePlayerTested (m : GameMap D) (ks : List ℕ)
    (s : UMap ℕ (Player D F) × List BorderTest) :
    Lts.run (collidePlayerTested m) ks s = (Lts.run (collidePlayer m) ks s.1).map fun players =>
      (players, s.2 ++ ks.flatMap (turnTests m s.1)) := by
  induction ks generalizing s with
  | nil => simp
  | cons k ks ih =>
    rw [Lts.run_cons, Lts.run_cons, collidePlayerTested_eq]
    cases hstep : collidePlayer m s.1 k with
    | none => rfl
    | some players =>
      -- the turn of a player leaves alive who is alive
      have hturn : turnTests m players = turnTests m s.1 := by
        funext j
        unfold turnTests
        rw [(onlyCentres_collidePlayer hstep).alive j]
      rw [Option.map_some, Option.bind_some, Option.bind_some, ih, List.flatMap_cons, hturn,
        List.append_assoc]

/-- Of a player's turn the tests are about that player. -/
theorem tested_of_mem_turnTests {m : GameMap D} {players : UMap ℕ (Player D F)} {k : ℕ}
    {test : BorderTest} (h : test ∈ turnTests m players k) :
    test.tested = .player k ∧ test.edge ∈ CyclicLoop.indices m.borders.length := by
  unfold turnTests at h
  split_ifs at h
  · obtain ⟨e, he, rfl⟩ := List.mem_map.mp h
    exact ⟨rfl, he⟩
  · cases h

theorem testsOf_turns {m : GameMap D} {players : UMap ℕ (Player D F)} {k : ℕ}
    (halive : (players.val k).alive = true) {ks : List ℕ} (hnodup : ks.Nodup) (hk : k ∈ ks) :
    testsOf (.player k) (ks.flatMap (turnTests m players))
      = CyclicLoop.indices m.borders.length := by
  induction ks with
  | nil => cases hk
  | cons j ks ih =>
    obtain ⟨hj, hnodup⟩ := List.nodup_cons.mp hnodup
    rw [List.flatMap_cons, testsOf_append]
    by_cases hjk : j = k
    · subst hjk
      have hself : turnTests m players j
          = (CyclicLoop.indices m.borders.length).map (⟨.player j, ·⟩) := by
        unfold turnTests
        rw [if_pos halive]
      rw [hself, testsOf_self, testsOf_other, List.append_nil]
      intro test htest hsame
      obtain ⟨i, hi, htest⟩ := List.mem_flatMap.mp htest
      have hother := (tested_of_mem_turnTests htest).1.symm.trans hsame
      exact hj (Tested.player.inj hother ▸ hi)
    · rw [testsOf_other, List.nil_append, ih hnodup ((List.mem_cons.mp hk).resolve_left
        (Ne.symm hjk))]
      intro test htest hsame
      exact hjk (Tested.player.inj ((tested_of_mem_turnTests htest).1.symm.trans hsame))

variable [Zero D] [Zero F]

/-! ## The loop of the projectiles -/

/-- The loop ends at the first edge the projectile touches, and tests all edges if there is none. -/
theorem hitsBorders_eq {m : GameMap D} (hne : m.borders ≠ []) (c : Circle D) :
    ∃ visits, hitsBorders m.borders c =
        some ⟨m.borderPolygon.any fun e => checkCollisionSegment c e.1 e.2, (), visits⟩ ∧
      visits ⊆ CyclicLoop.indices m.borders.length ∧
      ((m.borderPolygon.any fun e => checkCollisionSegment c e.1 e.2) = false →
        visits = CyclicLoop.indices m.borders.length) := by
  obtain ⟨visits, hrun, hprefix, hall⟩ := CyclicLoop.run_eq sizeMax
    (fun _ P1 P2 => (checkCollisionSegment c P1 P2, ())) hne ()
  have htest := CyclicLoop.foldUntil_test (fun e : Point D × Point D =>
    checkCollisionSegment c e.1 e.2) (m.borders.zip (m.borders.rotate 1))
  rw [htest] at hrun hall
  exact ⟨visits, hrun, hprefix.subset, hall⟩

theorem checkProjectileCollisionsTested_fst (ρ : Rehash ℕ) (m : GameMap D)
    (players : UMap ℕ (Player D F)) (p : Projectile D) (place : ℕ) :
    (checkProjectileCollisionsTested ρ m players p place).map Prod.fst
      = checkProjectileCollisions ρ m players p := by
  unfold checkProjectileCollisionsTested checkProjectileCollisions
  split_ifs
  · rfl
  · cases p.hitPlayer players with
    | some k => rfl
    | none =>
      by_cases hne : m.borders = []
      · show Option.map _ (Option.map _ (hitsBorders m.borders _)) = Option.map _ _
        unfold hitsBorders
        rw [hne, CyclicLoop.run_nil (by decide)]
        rfl
      · obtain ⟨visits, hhits, -, -⟩ := hitsBorders_eq hne p.toCircle
        show Option.map _ (Option.map _ (hitsBorders m.borders _)) = Option.map _ _
        rw [hhits, borderEdges_eq hne]
        rfl

theorem tests_of_checkProjectile {ρ : Rehash ℕ} {m : GameMap D}
    {players players' : UMap ℕ (Player D F)} {p : Projectile D} {place : ℕ} {hit : Bool}
    {tests : List BorderTest}
    (h : checkProjectileCollisionsTested ρ m players p place = some ((hit, players'), tests)) :
    ∃ visits, tests = visits.map (⟨.projectile place, ·⟩) ∧
      visits ⊆ CyclicLoop.indices m.borders.length ∧
      (hit = false → visits = CyclicLoop.indices m.borders.length) := by
  unfold checkProjectileCollisionsTested at h
  split_ifs at h with hobject
  · obtain ⟨hhit, rfl⟩ := Prod.mk.inj (Option.some.inj h)
    obtain ⟨rfl, -⟩ := Prod.mk.inj hhit
    exact ⟨[], rfl, List.nil_subset _, fun hfalse => absurd hfalse (by decide)⟩
  · split at h
    next k hk =>
      obtain ⟨hhit, rfl⟩ := Prod.mk.inj (Option.some.inj h)
      obtain ⟨rfl, -⟩ := Prod.mk.inj hhit
      exact ⟨[], rfl, List.nil_subset _, fun hfalse => absurd hfalse (by decide)⟩
    next =>
      by_cases hne : m.borders = []
      · unfold hitsBorders at h
        rw [hne, CyclicLoop.run_nil (by decide)] at h
        cases h
      · obtain ⟨visits, hhits, hsub, hall⟩ := hitsBorders_eq hne p.toCircle
        rw [hhits] at h
        obtain ⟨hhit, rfl⟩ := Prod.mk.inj (Option.some.inj h)
        obtain ⟨rfl, -⟩ := Prod.mk.inj hhit
        exact ⟨visits, rfl, hsub, hall⟩

theorem projectileLoopTested_cons {ρ : Rehash ℕ} {m : GameMap D}
    {players players' : UMap ℕ (Player D F)} {e : Projectile D × ℕ}
    {ps left : List (Projectile D × ℕ)} {tests : List BorderTest}
    (h : projectileLoopTested ρ m players (e :: ps) = some ((players', left), tests)) :
    ∃ hit players'' first left' more,
      checkProjectileCollisionsTested ρ m players e.1 e.2 = some ((hit, players''), first) ∧
      projectileLoopTested ρ m players'' ps = some ((players', left'), more) ∧
      left = (if hit then left' else e :: left') ∧ tests = first ++ more := by
  simp only [projectileLoopTested, bind, Option.bind_eq_some_iff, Prod.exists, pure,
    Option.some.injEq, Prod.mk.injEq] at h
  obtain ⟨hit, players'', first, hcheck, players₃, left', more, hloop, ⟨rfl, rfl⟩, rfl⟩ := h
  exact ⟨hit, players'', first, left', more, hcheck, hloop, rfl, rfl⟩

theorem projectileLoopTested_fst (ρ : Rehash ℕ) (m : GameMap D) (ps : List (Projectile D × ℕ))
    (players : UMap ℕ (Player D F)) :
    (projectileLoopTested ρ m players ps).map (fun r => (r.1.1, r.1.2.map Prod.fst))
      = projectileLoop ρ m players (ps.map Prod.fst) := by
  induction ps generalizing players with
  | nil => rfl
  | cons e ps ih =>
    obtain ⟨p, place⟩ := e
    have hfirst := checkProjectileCollisionsTested_fst ρ m players p place
    simp only [projectileLoopTested, List.map_cons, projectileLoop, bind, ← hfirst]
    cases checkProjectileCollisionsTested ρ m players p place with
    | none => rfl
    | some r =>
      obtain ⟨⟨hit, players'⟩, tests⟩ := r
      simp only [Option.map_some, Option.bind_some, ← ih players']
      cases projectileLoopTested ρ m players' ps with
      | none => rfl
      | some r =>
        obtain ⟨⟨players'', left⟩, more⟩ := r
        cases hit <;> rfl

/-- The tests of the loop: each is about a projectile of the loop, and those that are left have been
tested against all edges. -/
structure LoopTests (m : GameMap D) (ps left : List (Projectile D × ℕ)) (tests : List BorderTest) :
    Prop where
  sublist : left.Sublist ps
  edges : ∀ test ∈ tests, test.edge ∈ CyclicLoop.indices m.borders.length
  tested : ∀ test ∈ tests, ∃ e ∈ ps, test.tested = .projectile e.2
  all : (ps.map Prod.snd).Nodup → ∀ e ∈ left,
    testsOf (.projectile e.2) tests = CyclicLoop.indices m.borders.length

theorem loopTests_of_projectileLoop {ρ : Rehash ℕ} {m : GameMap D}
    {players players' : UMap ℕ (Player D F)} {ps left : List (Projectile D × ℕ)}
    {tests : List BorderTest}
    (h : projectileLoopTested ρ m players ps = some ((players', left), tests)) :
    LoopTests m ps left tests := by
  induction ps generalizing players left tests with
  | nil =>
    obtain ⟨hleft, rfl⟩ := Prod.mk.inj (Option.some.inj h)
    obtain ⟨-, rfl⟩ := Prod.mk.inj hleft
    exact ⟨List.Sublist.refl _, by simp, by simp, by simp⟩
  | cons e ps ih =>
    obtain ⟨hit, players'', first, left', more, hcheck, hloop, hleft, rfl⟩ :=
      projectileLoopTested_cons h
    obtain ⟨visits, rfl, hsub, hall⟩ := tests_of_checkProjectile hcheck
    have hrest := ih hloop
    have hsublist : left.Sublist (e :: ps) := by
      rw [hleft]
      cases hit with
      | true => exact hrest.sublist.cons e
      | false => exact hrest.sublist.cons_cons e
    refine ⟨hsublist, fun test htest => ?_, fun test htest => ?_, fun hnodup e' he' => ?_⟩
    · rcases List.mem_append.mp htest with hfirst | hmore
      · obtain ⟨v, hv, rfl⟩ := List.mem_map.mp hfirst
        exact hsub hv
      · exact hrest.edges test hmore
    · rcases List.mem_append.mp htest with hfirst | hmore
      · obtain ⟨v, -, rfl⟩ := List.mem_map.mp hfirst
        exact ⟨e, List.mem_cons_self, rfl⟩
      · obtain ⟨e', he', htested⟩ := hrest.tested test hmore
        exact ⟨e', List.mem_cons_of_mem e he', htested⟩
    · rw [List.map_cons, List.nodup_cons] at hnodup
      obtain ⟨hfresh, hnodup⟩ := hnodup
      rw [testsOf_append]
      -- the projectile is the first one, which has not hit anything, or one of the rest
      have hcases : (e' = e ∧ hit = false) ∨ e' ∈ left' := by
        rw [hleft] at he'
        cases hit with
        | true => exact .inr he'
        | false => exact (List.mem_cons.mp he').imp_left (⟨·, rfl⟩)
      rcases hcases with ⟨rfl, hmiss⟩ | he'
      · rw [testsOf_self, hall hmiss, testsOf_other, List.append_nil]
        intro test htest hsame
        obtain ⟨e', he', htested⟩ := hrest.tested test htest
        have hplace := Tested.projectile.inj (htested.symm.trans hsame)
        exact hfresh (hplace ▸ List.mem_map_of_mem he')
      · rw [hrest.all hnodup e' he', testsOf_other, List.nil_append]
        intro test htest hsame
        obtain ⟨v, -, rfl⟩ := List.mem_map.mp htest
        have hplace := Tested.projectile.inj hsame
        exact hfresh (hplace ▸ List.mem_map_of_mem (hrest.sublist.subset he'))

/-! ## The tick -/

theorem checkCollisionsTested_eq_some {ρ : Rehash ℕ} {g g' : Game D F} {left : List ℕ}
    {tests : List BorderTest} (h : checkCollisionsTested ρ g = some (g', left, tests)) :
    ∃ players players' kept more, checkPlayerCollisions g.gameMap g.players = some players ∧
      projectileLoopTested ρ g.gameMap players g.projectiles.zipIdx
        = some ((players', kept), more) ∧
      g'.projectiles = kept.map Prod.fst ∧ left = kept.map Prod.snd ∧
      tests = g.players.keys.flatMap (turnTests g.gameMap g.players) ++ more := by
  simp only [checkCollisionsTested, bind, Option.bind_eq_some_iff, Prod.exists, pure,
    Option.some.injEq, Prod.mk.injEq, run_collidePlayerTested, Option.map_eq_some_iff] at h
  obtain ⟨_, _, ⟨players, hplayers, rfl, rfl⟩, players', kept, more, hloop, rfl, rfl, rfl⟩ := h
  exact ⟨players, players', kept, more, hplayers, hloop, rfl, rfl, rfl⟩

/-- Without the tests it is `checkCollisions`. -/
theorem checkCollisionsTested_fst (ρ : Rehash ℕ) (g : Game D F) :
    (checkCollisionsTested ρ g).map Prod.fst = checkCollisions ρ g := by
  unfold checkCollisionsTested checkCollisions checkPlayerCollisions
  rw [run_collidePlayerTested]
  cases Lts.run (collidePlayer g.gameMap) g.players.keys g.players with
  | none => rfl
  | some players =>
    have hloop := projectileLoopTested_fst ρ g.gameMap g.projectiles.zipIdx players
    rw [List.zipIdx_map_fst] at hloop
    simp only [bind, Option.map_some, Option.bind_some, ← hloop]
    cases projectileLoopTested ρ g.gameMap players g.projectiles.zipIdx with
    | none => rfl
    | some r => rfl

/-- A tick that returns has made the right tests. -/
theorem testsEveryEdge_of_isSome {ρ : Rehash ℕ} {g : Game D F}
    (h : (checkCollisionsTested ρ g).isSome) : TestsEveryEdge ρ g := by
  obtain ⟨⟨g', left, tests⟩, hsome⟩ := Option.isSome_iff_exists.mp h
  obtain ⟨players, players', kept, more, -, hloop, hleft, rfl, rfl⟩ :=
    checkCollisionsTested_eq_some hsome
  have hmore := loopTests_of_projectileLoop hloop
  have hplaces : g.projectiles.zipIdx.map Prod.snd = List.range g.projectiles.length := by
    rw [List.zipIdx_map_snd, List.range_eq_range']
  have hat : ∀ e ∈ kept, g.projectiles[e.2]? = some e.1 := fun e he =>
    List.mem_zipIdx_iff_getElem?.mp (hmore.sublist.subset he)
  refine ⟨g', _, _, hsome, fun test htest => ?_, fun k hk halive => ?_, ?_, ?_, ?_⟩
  · rcases List.mem_append.mp htest with hturn | hmem
    · obtain ⟨k, -, hturn⟩ := List.mem_flatMap.mp hturn
      exact (tested_of_mem_turnTests hturn).2
    · exact hmore.edges test hmem
  · rw [testsOf_append, testsOf_turns halive g.players.nodup hk, testsOf_other, List.append_nil]
    intro test htest hsame
    obtain ⟨e, -, htested⟩ := hmore.tested test htest
    cases htested.symm.trans hsame
  · rw [← hplaces]
    exact hmore.sublist.map Prod.snd
  · rw [hleft, List.filterMap_map, ← List.filterMap_eq_map]
    exact List.filterMap_congr fun e he => (hat e he).symm
  · intro place hplace
    obtain ⟨e, he, rfl⟩ := List.mem_map.mp hplace
    rw [testsOf_append, testsOf_other, List.nil_append]
    · exact hmore.all (hplaces ▸ List.nodup_range) e he
    · intro test htest hsame
      obtain ⟨k, -, hturn⟩ := List.mem_flatMap.mp htest
      cases (tested_of_mem_turnTests hturn).1.symm.trans hsame

/-! ## Without a border -/

theorem borderEdges_eq_none {m : GameMap D} (h : m.borders = []) : borderEdges m.borders = none := by
  rw [h]
  rfl

/-- Without a border the loop over the players reads past its end at the first alive player. -/
theorem not_alive_of_run {m : GameMap D} (hempty : m.borders = []) {ks : List ℕ}
    {players players' : UMap ℕ (Player D F)}
    (h : Lts.run (collidePlayer m) ks players = some players') :
    ∀ k ∈ ks, (players.val k).alive = false := by
  induction ks generalizing players with
  | nil => intro k hk; cases hk
  | cons j ks ih =>
    obtain ⟨players'', hturn, hrest⟩ := Option.bind_eq_some_iff.mp h
    intro k hk
    rcases List.mem_cons.mp hk with rfl | hk
    · unfold collidePlayer at hturn
      split_ifs at hturn with halive
      · exact halive
      · unfold collideMap at hturn
        rw [borderEdges_eq_none hempty] at hturn
        cases hturn
    · rw [← (onlyCentres_collidePlayer hturn).alive k]
      exact ih hrest k hk

theorem run_collidePlayer_of_not_alive {m : GameMap D} {players : UMap ℕ (Player D F)}
    {ks : List ℕ} (h : ∀ k ∈ ks, (players.val k).alive = false) :
    Lts.run (collidePlayer m) ks players = some players := by
  induction ks with
  | nil => rfl
  | cons k ks ih =>
    have hturn : collidePlayer m players k = some players := by
      unfold collidePlayer
      rw [if_pos (h k List.mem_cons_self)]
    rw [Lts.run_cons, hturn, Option.bind_some]
    exact ih fun j hj => h j (List.mem_cons_of_mem k hj)

/-- Among dead players a projectile needs the border unless it touches a wall or an obstacle. -/
theorem checkProjectileCollisions_of_dead {ρ : Rehash ℕ} {m : GameMap D}
    {players : UMap ℕ (Player D F)} (hempty : m.borders = [])
    (hdead : ∀ k ∈ players.keys, (players.val k).alive = false) (p : Projectile D) :
    checkProjectileCollisions ρ m players p
      = if p.hitsObject m then some (true, players) else none := by
  have hnobody : p.hitPlayer players = none := by
    unfold Projectile.hitPlayer
    rw [List.find?_eq_none]
    intro k hk
    simp [hdead k hk]
  unfold checkProjectileCollisions
  rw [hnobody, borderEdges_eq_none hempty]
  rfl

theorem projectileLoop_isSome_of_dead {ρ : Rehash ℕ} {m : GameMap D}
    {players : UMap ℕ (Player D F)} (hempty : m.borders = [])
    (hdead : ∀ k ∈ players.keys, (players.val k).alive = false) (ps : List (Projectile D)) :
    (projectileLoop ρ m players ps).isSome = true ↔ ∀ p ∈ ps, p.hitsObject m = true := by
  induction ps with
  | nil => simp [projectileLoop]
  | cons p ps ih =>
    have hcheck := checkProjectileCollisions_of_dead (ρ := ρ) hempty hdead p
    by_cases hhits : p.hitsObject m = true
    · rw [if_pos hhits] at hcheck
      have hloop : (projectileLoop ρ m players (p :: ps)).isSome
          = (projectileLoop ρ m players ps).isSome := by
        simp only [projectileLoop, bind, hcheck, Option.bind_some]
        cases projectileLoop ρ m players ps <;> rfl
      rw [hloop, ih, List.forall_mem_cons]
      exact (and_iff_right hhits).symm
    · rw [if_neg hhits] at hcheck
      have hloop : projectileLoop ρ m players (p :: ps) = none := by
        simp only [projectileLoop, bind, hcheck, Option.bind_none]
      rw [hloop, List.forall_mem_cons]
      exact ⟨fun h => absurd h Bool.false_ne_true, fun h => absurd h.1 hhits⟩

theorem checkCollisions_isSome {ρ : Rehash ℕ} {g : Game D F} (h : g.gameMap.borders ≠ []) :
    (checkCollisions ρ g).isSome := by
  obtain ⟨players, hplayers⟩ := Option.isSome_iff_exists.mp
    (checkPlayerCollisions_isSome h g.players)
  obtain ⟨r, hloop⟩ := Option.isSome_iff_exists.mp
    (projectileLoop_isSome h ρ g.projectiles players)
  simp [checkCollisions, hplayers, hloop]

theorem checkCollisions_isSome_of_empty {ρ : Rehash ℕ} {g : Game D F}
    (h : g.gameMap.borders = []) :
    (checkCollisions ρ g).isSome = true ↔
      (∀ k ∈ g.players.keys, (g.players.val k).alive = false) ∧
        ∀ p ∈ g.projectiles, p.hitsObject g.gameMap = true := by
  have hdone : (∀ k ∈ g.players.keys, (g.players.val k).alive = false) →
      (checkCollisions ρ g).isSome
        = (projectileLoop ρ g.gameMap g.players g.projectiles).isSome := by
    intro hdead
    unfold checkCollisions checkPlayerCollisions
    rw [run_collidePlayer_of_not_alive hdead]
    simp only [bind, Option.bind_some]
    cases projectileLoop ρ g.gameMap g.players g.projectiles <;> rfl
  constructor
  · intro hsome
    have hdead : ∀ k ∈ g.players.keys, (g.players.val k).alive = false := by
      obtain ⟨g', hg'⟩ := Option.isSome_iff_exists.mp hsome
      obtain ⟨players, hplayers, -⟩ := Option.bind_eq_some_iff.mp hg'
      exact not_alive_of_run h hplayers
    exact ⟨hdead, (projectileLoop_isSome_of_dead h hdead _).mp (hdone hdead ▸ hsome)⟩
  · rintro ⟨hdead, hhits⟩
    rw [hdone hdead]
    exact (projectileLoop_isSome_of_dead h hdead _).mpr hhits

/-- **The loops over the border.** The tick reads border points only, and tests everybody against
every edge once, if and only if there is a border point, or nobody is alive and each projectile is
stopped by a wall or an obstacle. -/
theorem testsEveryEdge_iff (ρ : Rehash ℕ) (g : Game D F) :
    TestsEveryEdge ρ g ↔ g.gameMap.borders ≠ [] ∨
      (∀ k ∈ g.players.keys, (g.players.val k).alive = false) ∧
        ∀ p ∈ g.projectiles, p.hitsObject g.gameMap = true := by
  have hsome : TestsEveryEdge ρ g ↔ (checkCollisions ρ g).isSome = true := by
    rw [← checkCollisionsTested_fst, Option.isSome_map]
    refine ⟨fun h => ?_, testsEveryEdge_of_isSome⟩
    obtain ⟨g', left, tests, hg', -⟩ := h
    rw [hg']
    rfl
  rw [hsome]
  by_cases hempty : g.gameMap.borders = []
  · rw [checkCollisions_isSome_of_empty hempty]
    exact ⟨.inr, fun h => h.resolve_left (absurd hempty)⟩
  · exact ⟨fun _ => .inl hempty, fun _ => checkCollisions_isSome hempty⟩

end Spec

/-- The game of a host without a map file, after a client has joined and spawned. -/
noncomputable def spawnedWithoutMap : Game ℝ ℝ :=
  spawnPlayer Rehash.front (createNewPlayer Rehash.front (Game.initial GameMap.empty) 0) 0 (0, 0)

/-- The first tick after a player has spawned on a host whose map file could not be opened. -/
theorem missingMap_reads_past_end :
    getMap stodDigits (fun _ => none) "map1" GameMap.empty = some GameMap.empty ∧
      DrawAllowed (GameMap.empty : GameMap ℝ) (0, 0) ∧
      ¬ TestsEveryEdge Rehash.front spawnedWithoutMap := by
  refine ⟨rfl, ?_, ?_⟩
  · have hzero : toInt (0 : ℝ) = 0 := by exact_mod_cast toInt_intCast 0
    refine ⟨⟨hzero.le, hzero.ge⟩, ⟨hzero.le, hzero.ge⟩, rfl⟩
  · rintro ⟨g', left, tests, hsome, -⟩
    have hgame : checkCollisions Rehash.front spawnedWithoutMap = some g' := by
      rw [← checkCollisionsTested_fst, hsome]
      rfl
    have hdead := (checkCollisions_isSome_of_empty rfl).mp (Option.isSome_of_eq_some hgame)
    have halive : (spawnedWithoutMap.players.val 0).alive = true := by
      simp [spawnedWithoutMap, spawnPlayer, createNewPlayer, Game.indexPlayer, Game.setPlayer,
        Game.initial, UMap.index, UMap.val_insert, Player.new]
    have hkey : 0 ∈ spawnedWithoutMap.players.keys := by
      simp [spawnedWithoutMap, spawnPlayer, createNewPlayer, Game.indexPlayer, Game.setPlayer,
        Game.initial, UMap.index, UMap.val_insert, Player.new]
    exact absurd (halive.symm.trans (hdead.1 0 hkey)) (by decide)

end PRShooter
