import PRShooter.Combat
import PRShooter.History

/-!
# Health

A run of the game together with its history: which player has been spawned, and whom a projectile
has hit. The health of a player is what the hits since its last spawn have left of 100, and the
tenth of them is the one that kills.
-/

set_option linter.unusedSectionVars false

namespace PRShooter

open History

variable {D F : Type} [Zero D] [One D] [Zero F] [NatCast D] [IntCast D] [OfScientific D] [Add D]
  [Sub D] [Mul D] [Div D] [Neg D] [LT D] [LE D] [DecidableLT D] [DecidableLE D] [HasSqrt D]

/-! ## The history of a run -/

/-- What happens to a player. -/
inductive LifeEvent where
  | spawned (k : ℕ)
  | hit (k : ℕ) (died : Bool)
  deriving DecidableEq

/-- The hit of an examination. -/
def Examination.lifeEvent (m : GameMap D) (e : Examination D F) : Option LifeEvent :=
  (e.projectile.hurts m e.before).map fun k => .hit k (!(e.after.val k).alive)

/-- What happens in a step: a spawn is honoured if the player is not alive. -/
def lifeEvents (g : Game D F) : GameEvent D F → List LifeEvent
  | .spawn _ k _ => if (entry g.players k).alive then [] else [.spawned k]
  | .tick ρ => ((examinations ρ g).getD []).filterMap (Examination.lifeEvent g.gameMap)
  | _ => []

/-- The game and its history. -/
structure Life (D F : Type) where
  game : Game D F
  log : List LifeEvent

namespace Life

def start (m : GameMap D) : Life D F := ⟨Game.initial m, []⟩

/-- One event of the game. -/
def step [Trig F D] [ToInt D] (s : Life D F) (e : GameEvent D F) : Option (Life D F) :=
  (s.game.step e).map fun g => ⟨g, s.log ++ lifeEvents s.game e⟩

end Life

/-- The hits that a player has taken since its last spawn. -/
def hitsSinceSpawn (k : ℕ) (log : List LifeEvent) : ℕ :=
  log.foldl (fun n e =>
    match e with
    | .spawned j => if j = k then 0 else n
    | .hit j _ => if j = k then n + 1 else n) 0

/-- A hit is at most the tenth since the spawn of the player, who dies exactly of the tenth. -/
def TenthKills (before : List LifeEvent) : LifeEvent → Prop
  | .spawned _ => True
  | .hit k died => hitsSinceSpawn k before < 10 ∧ (died = true ↔ hitsSinceSpawn k before + 1 = 10)

@[simp] theorem hitsSinceSpawn_spawned (k j : ℕ) (log : List LifeEvent) :
    hitsSinceSpawn k (log ++ [.spawned j]) = if j = k then 0 else hitsSinceSpawn k log := by
  simp [hitsSinceSpawn]

@[simp] theorem hitsSinceSpawn_hit (k j : ℕ) (died : Bool) (log : List LifeEvent) :
    hitsSinceSpawn k (log ++ [.hit j died]) =
      if j = k then hitsSinceSpawn k log + 1 else hitsSinceSpawn k log := by
  simp [hitsSinceSpawn]

/-! ## Healthy players -/

/-- The health is one of 10, 20, ..., 100; while the player is alive it is what `hits` have left. -/
def Player.Healthy (hits : ℕ) (p : Player D F) : Prop :=
  (∃ i, 1 ≤ i ∧ i ≤ 10 ∧ p.health.toNat = 10 * i) ∧
    (p.alive = true → p.health.toNat + 10 * hits = 100)

theorem healthy_new (hits playerId : ℕ) : (Player.new playerId : Player D F).Healthy hits :=
  ⟨⟨10, by decide, le_rfl, rfl⟩, nofun⟩

theorem Player.Healthy.congr {hits : ℕ} {p q : Player D F} (h : p.Healthy hits)
    (hhealth : q.health = p.health) (halive : q.alive = p.alive) : q.Healthy hits := by
  unfold Healthy
  rw [hhealth, halive]
  exact h

/-- Every player in the map is healthy, and the history is one in which the tenth hit kills. -/
structure Life.Ok (players : UMap ℕ (Player D F)) (log : List LifeEvent) : Prop where
  healthy : ∀ k ∈ players.keys, (players.val k).Healthy (hitsSinceSpawn k log)
  tenth : EachEvent TenthKills log

namespace Life.Ok

variable {players players' : UMap ℕ (Player D F)} {log : List LifeEvent}

theorem all (h : Ok players log) : players.All fun k p => p.Healthy (hitsSinceSpawn k log) :=
  h.healthy

theorem set (h : Ok players log) {k : ℕ} {p : Player D F}
    (hp : k ∈ players.keys → p.Healthy (hitsSinceSpawn k log)) : Ok (players.set k p) log :=
  ⟨h.all.set hp, h.tenth⟩

theorem insert (h : Ok players log) (ρ : Rehash ℕ) (k playerId : ℕ) :
    Ok (players.insert ρ k (Player.new playerId)) log :=
  ⟨h.all.insert ρ (healthy_new _ _), h.tenth⟩

theorem index (h : Ok players log) (ρ : Rehash ℕ) (k : ℕ) :
    Ok (players.index ρ k (Player.new 0)) log :=
  ⟨h.all.index ρ (healthy_new _ _), h.tenth⟩

/-- An entry that `operator[]` has made sure of is written back with another angle, velocity or
score. -/
theorem set_index (h : Ok players log) (ρ : Rehash ℕ) (k : ℕ) {p : Player D F}
    (hhealth : p.health = ((players.index ρ k (Player.new 0)).val k).health)
    (halive : p.alive = ((players.index ρ k (Player.new 0)).val k).alive) :
    Ok ((players.index ρ k (Player.new 0)).set k p) log :=
  (h.index ρ k).set fun hk => ((h.index ρ k).healthy k hk).congr hhealth halive

theorem erase (h : Ok players log) (k : ℕ) : Ok (players.erase k) log :=
  ⟨h.all.erase k, h.tenth⟩

theorem onlyCentres (h : Ok players log) (hmoved : OnlyCentres players players') :
    Ok players' log := by
  refine ⟨fun k hk => ?_, h.tenth⟩
  rw [hmoved.1] at hk
  exact (h.healthy k hk).congr (hmoved.health k) (hmoved.alive k)

/-- A spawn that is honoured starts the count again. -/
theorem spawned (h : Ok players log) (k : ℕ) {p : Player D F} (hhealth : p.health = 100) :
    Ok (players.set k p) (log ++ [.spawned k]) := by
  refine ⟨fun j hj => ?_, h.tenth.append trivial⟩
  rw [UMap.val_set, hitsSinceSpawn_spawned]
  by_cases hjk : j = k
  · rw [if_pos hjk, if_pos hjk.symm]
    exact ⟨⟨10, by decide, le_rfl, by rw [hhealth]; rfl⟩, fun _ => by rw [hhealth]; rfl⟩
  · rw [if_neg hjk, if_neg (Ne.symm hjk)]
    exact h.healthy j hj

theorem entry (h : Ok players log) (k : ℕ) :
    (entry players k).Healthy (hitsSinceSpawn k log) := by
  unfold PRShooter.entry
  split_ifs with hk
  · exact h.healthy k hk
  · exact healthy_new _ _

/-! ## Hits -/

theorem damaged (h : Ok players log) {k : ℕ} (hk : k ∈ players.keys)
    (halive : (players.val k).alive = true) (hdamaged : Damaged k players players') :
    Ok players' (log ++ [.hit k (!(players'.val k).alive)]) := by
  obtain ⟨⟨i, hi, hi', hhealth⟩, hhits⟩ := h.healthy k hk
  have hleft := hhits halive
  have hafter := hdamaged.health
  have hpos := hdamaged.pos
  have halive' : (players'.val k).alive = true := by rw [hdamaged.val]; exact halive
  refine ⟨fun j hj => ?_, h.tenth.append ⟨by omega, ?_⟩⟩
  · rw [hitsSinceSpawn_hit]
    by_cases hjk : j = k
    · rw [hjk, if_pos rfl]
      exact ⟨⟨i - 1, by omega, by omega, by omega⟩, fun _ => by omega⟩
    · rw [if_neg (Ne.symm hjk), hdamaged.others j hjk]
      exact h.healthy j (hdamaged.keys ▸ hj)
  · rw [halive']
    simp only [Bool.not_true, Bool.false_eq_true, false_iff]
    omega

theorem killed (h : Ok players log) {owner k : ℕ} (hk : k ∈ players.keys)
    (halive : (players.val k).alive = true) (hne : k ≠ owner)
    (hkilled : Killed owner k players players') :
    Ok players' (log ++ [.hit k (!(players'.val k).alive)]) := by
  obtain ⟨⟨i, hi, hi', hhealth⟩, hhits⟩ := h.healthy k hk
  have hleft := hhits halive
  have hlast := hkilled.health
  refine ⟨fun j hj => ?_, h.tenth.append ⟨by omega, ?_⟩⟩
  · rw [hitsSinceSpawn_hit]
    by_cases hjk : j = k
    · rw [hjk, hkilled.victim]
      exact ⟨⟨i, hi, hi', hhealth⟩, nofun⟩
    · rw [if_neg (Ne.symm hjk)]
      by_cases hjo : j = owner
      · subst hjo
        rw [hkilled.kills]
        exact (h.entry j).congr rfl rfl
      · rw [hkilled.others j hjk hjo]
        exact h.healthy j (((hkilled.keys j).mp hj).resolve_left hjo)
  · rw [hkilled.victim]
    simp only [Bool.not_false, true_iff]
    omega

theorem examination (h : Ok players log) {ρ : Rehash ℕ} {m : GameMap D} {e : Examination D F}
    (hbefore : e.before = players)
    (hcheck : checkProjectileCollisions ρ m e.before e.projectile = some (e.removed, e.after)) :
    Ok e.after (log ++ (e.lifeEvent m).toList) := by
  subst hbefore
  unfold Examination.lifeEvent
  rcases check_cases hcheck with ⟨hnone, hsame⟩ | ⟨k, hhurts, -, -, hcan, hdamaged | hkilled⟩
  · rw [hnone, hsame]
    simpa using h
  · rw [hhurts]
    exact h.damaged hcan.1 hcan.2.1 hdamaged
  · rw [hhurts]
    exact h.killed hcan.1 hcan.2.1 hcan.2.2.1 hkilled

/-- A whole pass over the projectiles. -/
theorem linked {ρ : Rehash ℕ} {m : GameMap D} {examined : List (Examination D F)}
    (h : Ok players log) (hlinked : Linked players examined players')
    (hchecks : ∀ e ∈ examined,
      checkProjectileCollisions ρ m e.before e.projectile = some (e.removed, e.after)) :
    Ok players' (log ++ examined.filterMap (Examination.lifeEvent m)) := by
  induction examined generalizing players log with
  | nil =>
    obtain rfl := hlinked
    simpa using h
  | cons e es ih =>
    obtain ⟨hbefore, hlinked⟩ := hlinked
    have hrest := ih (h.examination hbefore (hchecks e (by simp))) hlinked
      fun d hd => hchecks d (by simp [hd])
    rw [List.append_assoc] at hrest
    rw [List.filterMap_eq_flatMap_toList] at hrest ⊢
    exact hrest

end Life.Ok

/-! ## Steps -/

namespace Life

variable [Trig F D] [ToInt D] {m : GameMap D} {s t : Life D F} {e : GameEvent D F}

/-- The map of the game and the invariant. -/
def OkOn (m : GameMap D) (s : Life D F) : Prop := s.game.gameMap = m ∧ Ok s.game.players s.log

theorem okOn_start (m : GameMap D) : (start m : Life D F).OkOn m :=
  ⟨rfl, fun k hk => absurd hk (by simp [start, Game.initial]), EachEvent.nil⟩

theorem okOn_spawn (h : s.OkOn m) (ρ : Rehash ℕ) (k : ℕ) (draw : ℤ × ℤ) :
    Ok (spawnPlayer ρ s.game k draw).players (s.log ++ lifeEvents s.game (.spawn ρ k draw)) := by
  have hentry : (s.game.indexPlayer ρ k).players.val k = entry s.game.players k := by
    by_cases hk : k ∈ s.game.players.keys <;>
      simp [Game.indexPlayer, UMap.val_index, entry, hk]
  have hindex : Ok (s.game.indexPlayer ρ k).players s.log := h.2.index ρ k
  simp only [spawnPlayer, lifeEvents, hentry]
  cases halive : (entry s.game.players k).alive with
  | true => simpa using hindex
  | false => exact hindex.spawned k rfl

theorem okOn_step (hm : m.borders ≠ []) (h : s.OkOn m) (hstep : s.step e = some t) :
    t.OkOn m := by
  obtain ⟨g, hgame, rfl⟩ := Option.map_eq_some_iff.mp hstep
  have hlog : s.log ++ [] = s.log := List.append_nil _
  cases e with
  | connect ρ k =>
    obtain rfl := Option.some.inj hgame
    exact ⟨h.1, hlog.symm ▸ h.2.insert ρ k k⟩
  | disconnect k =>
    obtain rfl := Option.some.inj hgame
    exact ⟨h.1, hlog.symm ▸ h.2.erase k⟩
  | spawn ρ k draw =>
    simp only [Game.step] at hgame
    split_ifs at hgame
    obtain rfl := Option.some.inj hgame
    refine ⟨?_, okOn_spawn h ρ k draw⟩
    simp only [spawnPlayer]
    split_ifs <;> exact h.1
  | shoot ρ k =>
    obtain rfl := Option.some.inj hgame
    refine ⟨?_, hlog.symm ▸ ?_⟩ <;> simp only [shootProjectile] <;> split_ifs
    · exact h.1
    · exact h.1
    · exact h.2.index ρ k
    · exact h.2.index ρ k
  | changeOrientation ρ k angle =>
    obtain rfl := Option.some.inj hgame
    exact ⟨h.1, hlog.symm ▸ h.2.set_index ρ k rfl rfl⟩
  | changeMovement ρ k velocityX velocityY =>
    obtain rfl := Option.some.inj hgame
    refine ⟨?_, hlog.symm ▸ ?_⟩ <;> simp only [changePlayerMovement] <;> split_ifs
    · exact h.1
    · exact h.1
    · exact h.2.set_index ρ k rfl rfl
    · exact h.2
  | tick ρ =>
    obtain ⟨players, examined, hmoved, hmap, hlinked, hexamined, hchecks⟩ :=
      examinations_of_tick hm h.1 hgame
    refine ⟨hmap, ?_⟩
    simp only [lifeEvents, hexamined, Option.getD_some, h.1]
    exact (h.2.onlyCentres hmoved).linked hlinked hchecks

end Life

/-! ## Deaths -/

/-- Whoever dies in an examination is hit in it. -/
theorem mem_died_iff_lifeEvent {ρ : Rehash ℕ} {m : GameMap D} {e : Examination D F} {k : ℕ}
    (hcheck : checkProjectileCollisions ρ m e.before e.projectile = some (e.removed, e.after)) :
    k ∈ died e.before e.after ↔ e.lifeEvent m = some (.hit k true) := by
  unfold Examination.lifeEvent
  rcases check_cases hcheck with ⟨hnone, hsame⟩ | ⟨j, hhurts, -, -, hcan, hdamaged | hkilled⟩
  · rw [hnone, hsame, died_of_alive_eq fun _ => rfl]
    simp
  · have halive : (e.after.val j).alive = true := by rw [hdamaged.val]; exact hcan.2.1
    rw [hhurts, hdamaged.died_eq]
    simp [halive]
  · have halive : (e.after.val j).alive = false := by rw [hkilled.victim]
    rw [hhurts, hkilled.died_eq hcan.1 hcan.2.1 hcan.2.2.1]
    simp [halive, eq_comm]

theorem died_of_onlyCentres {players players' players'' : UMap ℕ (Player D F)}
    (h : OnlyCentres players players') : died players players'' = died players' players'' := by
  unfold died
  rw [h.1]
  exact List.filter_congr fun k _ => by rw [h.alive]

/-- A player whose entry is kept or made alive does not die. -/
theorem not_mem_died {players players' : UMap ℕ (Player D F)} {k : ℕ}
    (h : k ∈ players.keys → (players.val k).alive = true → (players'.val k).alive = true) :
    k ∉ died players players' := by
  rw [mem_died]
  rintro ⟨hk, halive, hdead⟩
  rw [h hk halive] at hdead
  exact absurd hdead (by decide)

/-- `operator[]` does not touch a key that is there. -/
theorem alive_index {players : UMap ℕ (Player D F)} (ρ : Rehash ℕ) (j : ℕ) {k : ℕ}
    (hk : k ∈ players.keys) (halive : (players.val k).alive = true) :
    ((players.index ρ j (Player.new 0)).val k).alive = true := by
  rw [UMap.val_index, if_neg fun h => h.2 (h.1 ▸ hk)]
  exact halive

theorem alive_set_index {players : UMap ℕ (Player D F)} (ρ : Rehash ℕ) (j : ℕ) {p : Player D F}
    (hp : ((players.index ρ j (Player.new 0)).val j).alive = true → p.alive = true) {k : ℕ}
    (hk : k ∈ players.keys) (halive : (players.val k).alive = true) :
    (((players.index ρ j (Player.new 0)).set j p).val k).alive = true := by
  have hsame := alive_index ρ j hk halive
  rw [UMap.val_set]
  split_ifs with hkj
  · exact hp (hkj ▸ hsame)
  · exact hsame

namespace Life

variable [Trig F D] [ToInt D] {m : GameMap D} {s t : Life D F} {e : GameEvent D F}

/-- In every step but a new connection under its id, a player dies if and only if it is hit for the
last time. -/
theorem mem_died_iff_of_step (hm : m.borders ≠ []) (hmap : s.game.gameMap = m)
    (hstep : s.step e = some t) {k : ℕ} (hconnect : ∀ ρ, e ≠ .connect ρ k) :
    k ∈ died s.game.players t.game.players ↔ .hit k true ∈ lifeEvents s.game e := by
  obtain ⟨g, hgame, rfl⟩ := Option.map_eq_some_iff.mp hstep
  cases e with
  | connect ρ j =>
    obtain rfl := Option.some.inj hgame
    have hkj : k ≠ j := fun h => hconnect ρ (by rw [h])
    refine iff_of_false (not_mem_died fun _ halive => ?_) (by simp [lifeEvents])
    simpa [createNewPlayer, UMap.val_insert, hkj] using halive
  | disconnect j =>
    obtain rfl := Option.some.inj hgame
    exact iff_of_false (not_mem_died fun _ halive => halive) (by simp [lifeEvents])
  | spawn ρ j draw =>
    simp only [Game.step] at hgame
    split_ifs at hgame
    obtain rfl := Option.some.inj hgame
    refine iff_of_false (not_mem_died fun hk halive => ?_) ?_
    · simp only [spawnPlayer]
      split_ifs
      · refine alive_set_index ρ j ?_ hk halive
        intro _
        exact rfl
      · exact alive_index ρ j hk halive
    · simp only [lifeEvents]
      split_ifs <;> simp
  | shoot ρ j =>
    obtain rfl := Option.some.inj hgame
    refine iff_of_false (not_mem_died fun hk halive => ?_) (by simp [lifeEvents])
    simp only [shootProjectile]
    split_ifs <;> exact alive_index ρ j hk halive
  | changeOrientation ρ j angle =>
    obtain rfl := Option.some.inj hgame
    refine iff_of_false (not_mem_died fun hk halive => ?_) (by simp [lifeEvents])
    refine alive_set_index ρ j ?_ hk halive
    exact id
  | changeMovement ρ j velocityX velocityY =>
    obtain rfl := Option.some.inj hgame
    refine iff_of_false (not_mem_died fun hk halive => ?_) (by simp [lifeEvents])
    unfold changePlayerMovement
    split_ifs
    · refine alive_set_index ρ j ?_ hk halive
      exact id
    · exact halive
  | tick ρ =>
    obtain ⟨players, examined, hmoved, -, hlinked, hexamined, hchecks⟩ :=
      examinations_of_tick hm hmap hgame
    have hhits : ∀ e ∈ examined, OnlyHits e.before e.after := fun e he =>
      onlyHits_checkProjectileCollisions (hchecks e he)
    rw [died_of_onlyCentres hmoved, ← mem_victims_iff hlinked hhits]
    simp only [lifeEvents, hexamined, Option.getD_some, hmap, victims, List.mem_flatMap,
      List.mem_filterMap]
    exact exists_congr fun e => and_congr_right fun he => mem_died_iff_lifeEvent (hchecks e he)

end Life

/-- **Health.** In every run on a map whose border has a point all players are healthy, a hit is at
most the tenth since a spawn, and a player dies in exactly those steps in which it takes the tenth.
Only a new connection under its id makes another player of it. -/
theorem health_of_reach [Trig F D] [ToInt D] {m : GameMap D} (hm : m.borders ≠ []) {s : Life D F}
    (h : Lts.Reach Life.step Lts.Any (Life.start m) s) :
    (∀ k ∈ s.game.players.keys, (s.game.players.val k).Healthy (hitsSinceSpawn k s.log)) ∧
    EachEvent TenthKills s.log ∧
    ∀ e t, s.step e = some t → ∀ k, (∀ ρ, e ≠ .connect ρ k) →
      (k ∈ died s.game.players t.game.players ↔ .hit k true ∈ lifeEvents s.game e) := by
  have hok : s.OkOn m := h.invariant (Life.okOn_start m) fun _ _ _ hI _ hstep =>
    Life.okOn_step hm hI hstep
  exact ⟨hok.2.healthy, hok.2.tenth, fun e t hstep k hconnect =>
    Life.mem_died_iff_of_step hm hok.1 hstep hconnect⟩

/-- Nine hits, and the tenth that kills. -/
theorem lifeEvents_tenShots : lifeEvents tenShots (.tick Rehash.front)
    = List.replicate 9 (.hit 1 false) ++ [.hit 1 true] := by
  have hmap : tenShots.gameMap = squareMap := rfl
  have hhits : ∀ i ∈ List.range 10,
      Examination.lifeEvent squareMap ⟨flyingShot, afterHits i, true, afterHits (i + 1)⟩
        = some (.hit 1 (decide (i = 9))) := by
    intro i hi
    have hlt := List.mem_range.mp hi
    rw [Examination.lifeEvent, hurts_flyingShot (by omega), Option.map_some,
      alive_afterHits_succ hlt, Bool.not_not]
  rw [lifeEvents, examinations_tenShots, Option.getD_some, hmap, tenExaminations,
    List.filterMap_map]
  exact (List.filterMap_congr hhits).trans rfl

theorem run_barrage : ∃ s : Life ℝ ℝ, Lts.run Life.step barrage (Life.start squareMap) = some s ∧
    s.log = [.spawned 0, .spawned 1] ++ (List.replicate 9 (.hit 1 false) ++ [.hit 1 true]) ∧
    s.game.players = afterHits 10 := by
  have hjoin : Lts.run Life.step [.connect Rehash.front 0, .connect Rehash.front 1]
      (Life.start squareMap) = some (⟨joinedPair, []⟩ : Life ℝ ℝ) := rfl
  have hspawn : ∀ (g : Game ℝ ℝ) (log : List LifeEvent) (k : ℕ) (draw : ℤ × ℤ),
      DrawAllowed g.gameMap draw → (entry g.players k).alive = false →
      Lts.run Life.step [.spawn Rehash.front k draw] ⟨g, log⟩ =
        some ⟨spawnPlayer Rehash.front g k draw, log ++ [.spawned k]⟩ := by
    intro g log k draw hdraw hdead
    simp [Life.step, Game.step, hdraw, lifeEvents, hdead]
  have hzero : Lts.run Life.step [.spawn Rehash.front 0 (0, 0)] ⟨joinedPair, []⟩
      = some ⟨spawnPlayer Rehash.front joinedPair 0 (0, 0), [.spawned 0]⟩ :=
    hspawn joinedPair [] 0 (0, 0) (drawAllowed_squareMap (by norm_num) (by norm_num)) rfl
  have hone : Lts.run Life.step [.spawn Rehash.front 1 (62, 0)]
      ⟨spawnPlayer Rehash.front joinedPair 0 (0, 0), [.spawned 0]⟩
        = some ⟨pair (0, 0) (62, 0), [.spawned 0, .spawned 1]⟩ :=
    hspawn _ [.spawned 0] 1 (62, 0) (drawAllowed_squareMap (by norm_num) (by norm_num)) rfl
  have hshoot : Lts.run Life.step (List.replicate 10 (.shoot Rehash.front 0))
      ⟨pair (0, 0) (62, 0), [.spawned 0, .spawned 1]⟩
        = some (⟨tenShots, [.spawned 0, .spawned 1]⟩ : Life ℝ ℝ) := rfl
  obtain ⟨g, hg, hplayers⟩ := tick_tenShots
  have htick : Lts.run Life.step [.tick Rehash.front] ⟨tenShots, [.spawned 0, .spawned 1]⟩
      = some ⟨g, [.spawned 0, .spawned 1] ++ lifeEvents tenShots (.tick Rehash.front)⟩ := by
    simp [Life.step, Game.step, hg]
  rw [lifeEvents_tenShots] at htick
  refine ⟨⟨g, _⟩, ?_, rfl, hplayers⟩
  simp only [barrage, Lts.run_append, hjoin, hzero, hone, hshoot, htick, Option.bind_some]

/-- Player 1 dies of the tenth hit. -/
theorem health_of_reach_barrage : ∃ s : Life ℝ ℝ,
    Lts.Reach Life.step Lts.Any (Life.start squareMap) s ∧ .hit 1 true ∈ s.log ∧
      hitsSinceSpawn 1 s.log = 10 ∧ (s.game.players.val 1).alive = false ∧
      EachEvent TenthKills s.log ∧ (s.game.players.val 1).Healthy 10 := by
  obtain ⟨s, hs, hlog, hplayers⟩ := run_barrage
  have hhits : hitsSinceSpawn 1 s.log = 10 := by
    rw [hlog]
    rfl
  have hkey : 1 ∈ s.game.players.keys := by
    rw [hplayers, killed_afterHits.keys]
    simp [(val_afterHits le_rfl).1]
  obtain ⟨hhealthy, htenth, -⟩ := health_of_reach convexBorder_squareMap.1 (.of_run hs)
  refine ⟨s, .of_run hs, by simp [hlog], hhits, ?_, htenth, hhits ▸ hhealthy 1 hkey⟩
  rw [hplayers, killed_afterHits.victim]

end PRShooter
