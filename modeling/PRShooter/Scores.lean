import PRShooter.Health
import PRShooter.ClientParts

/-!
# The scores

A run of the game together with the kills that happen in it: who killed whom. The kills and the
deaths in the entry of a client are those of the history since it last joined or left, as 16-bit
numbers, whatever else has happened in between (`scores_of_reach`).
-/

set_option linter.unusedSectionVars false

namespace PRShooter

open History

variable {D F : Type} [Zero D] [One D] [Zero F] [NatCast D] [IntCast D] [OfScientific D] [Add D]
  [Sub D] [Mul D] [Div D] [Neg D] [LT D] [LE D] [DecidableLT D] [DecidableLE D] [HasSqrt D]

/-! ## The history of a run -/

/-- What matters to the scores. -/
inductive ScoreEvent where
  | joined (k : ℕ)
  | left (k : ℕ)
  | killed (killer victim : ℕ)
  deriving DecidableEq

namespace ScoreEvent

/-- The entry of the client is made anew or removed. -/
def resets (k : ℕ) : ScoreEvent → Bool
  | joined j | left j => j = k
  | killed _ _ => false

def isKillOf (k : ℕ) : ScoreEvent → Bool
  | killed killer _ => killer = k
  | joined _ | left _ => false

def isDeathOf (k : ℕ) : ScoreEvent → Bool
  | killed _ victim => victim = k
  | joined _ | left _ => false

end ScoreEvent

/-- The kills of a client in a history, since it last joined or left. -/
def killsOf (k : ℕ) (log : List ScoreEvent) : ℕ :=
  countSince (ScoreEvent.resets k) (ScoreEvent.isKillOf k) log

/-- The deaths of a client in a history, since it last joined or left. -/
def deathsOf (k : ℕ) (log : List ScoreEvent) : ℕ :=
  countSince (ScoreEvent.resets k) (ScoreEvent.isDeathOf k) log

/-- The kill of an examination: the player hurt is not alive afterwards. -/
def Examination.scoreEvent (m : GameMap D) (e : Examination D F) : Option ScoreEvent :=
  (e.projectile.hurts m e.before).bind fun k =>
    if (e.after.val k).alive then none else some (.killed e.projectile.ownerId k)

/-- What happens to the scores in a step. -/
def scoreEvents (g : Game D F) : GameEvent D F → List ScoreEvent
  | .connect _ k => [.joined k]
  | .disconnect k => [.left k]
  | .tick ρ => ((examinations ρ g).getD []).filterMap (Examination.scoreEvent g.gameMap)
  | _ => []

/-- The game and the history of its scores. -/
structure Ledger (D F : Type) where
  game : Game D F
  log : List ScoreEvent

namespace Ledger

def start (m : GameMap D) : Ledger D F := ⟨Game.initial m, []⟩

/-- One event of the game. -/
def step [Trig F D] [ToInt D] (s : Ledger D F) (e : GameEvent D F) : Option (Ledger D F) :=
  (s.game.step e).map fun g => ⟨g, s.log ++ scoreEvents s.game e⟩

end Ledger

/-! ## Entries -/

theorem entry_eq (players : UMap ℕ (Player D F)) (k : ℕ) :
    entry players k = (players.find? k).getD (Player.new 0) := by
  unfold entry UMap.find?
  split_ifs <;> rfl

/-- All scores are the same. -/
def SameScores (players players' : UMap ℕ (Player D F)) : Prop :=
  ∀ k, (entry players' k).kills = (entry players k).kills ∧
    (entry players' k).deaths = (entry players k).deaths

namespace SameScores

variable {players players' : UMap ℕ (Player D F)}

theorem refl (players : UMap ℕ (Player D F)) : SameScores players players := fun _ => ⟨rfl, rfl⟩

theorem of_onlyCentres (h : OnlyCentres players players') : SameScores players players' := by
  intro k
  obtain ⟨c, hc⟩ := h.2 k
  have hmem : k ∈ players'.keys ↔ k ∈ players.keys := by rw [h.1]
  exact ⟨entry_congr Player.kills hmem (by rw [hc]; rfl),
    entry_congr Player.deaths hmem (by rw [hc]; rfl)⟩

/-- One entry is replaced by one with the same scores. -/
theorem of_find? {d : ℕ} {p : Player D F} (hkills : p.kills = (entry players d).kills)
    (hdeaths : p.deaths = (entry players d).deaths)
    (h : ∀ c, players'.find? c = if c = d then some p else players.find? c) :
    SameScores players players' := by
  intro c
  rw [entry_eq players', h]
  split_ifs with hc
  · exact hc ▸ ⟨hkills, hdeaths⟩
  · rw [← entry_eq]
    exact ⟨rfl, rfl⟩

end SameScores

/-- Something a client asks for. -/
def GameEvent.IsRequest : GameEvent D F → Prop
  | .connect _ _ | .disconnect _ | .tick _ => False
  | .spawn _ _ _ | .shoot _ _ | .changeOrientation _ _ _ | .changeMovement _ _ _ _ => True

/-- What a client asks for changes no score. -/
theorem sameScores_step [Trig F D] [ToInt D] {g g' : Game D F} {e : GameEvent D F}
    (h : g.step e = some g') (hrequest : e.IsRequest) : SameScores g.players g'.players := by
  have hentry : ∀ d, g.entry d = entry g.players d := fun d => (entry_eq g.players d).symm
  cases e with
  | tick | connect | disconnect => exact hrequest.elim
  | spawn ρ d draw =>
    simp only [Game.step] at h
    split_ifs at h
    obtain rfl := Option.some.inj h
    refine .of_find? ?_ ?_ fun c => find?_spawnPlayer ρ g d c draw
    · rw [hentry]
      split_ifs <;> rfl
    · rw [hentry]
      split_ifs <;> rfl
  | shoot ρ d =>
    obtain rfl := Option.some.inj h
    exact .of_find? (by rw [hentry]) (by rw [hentry]) fun c => find?_shootProjectile ρ g d c
  | changeOrientation ρ d angle =>
    obtain rfl := Option.some.inj h
    refine .of_find? ?_ ?_ fun c => find?_setPlayer_indexPlayer ρ g d c _
    · rw [val_indexPlayer, hentry]
    · rw [val_indexPlayer, hentry]
  | changeMovement ρ d velocityX velocityY =>
    obtain rfl := Option.some.inj h
    simp only [changePlayerMovement]
    split_ifs
    · refine .of_find? ?_ ?_ fun c => find?_setPlayer_indexPlayer ρ g d c _
      · rw [val_indexPlayer, hentry]
      · rw [val_indexPlayer, hentry]
    · exact .refl g.players

/-! ## The scores follow the history -/

/-- The scores of every entry are those of the history, and nobody kills himself. -/
structure Ledger.Ok (players : UMap ℕ (Player D F)) (log : List ScoreEvent) : Prop where
  kills : ∀ k, (entry players k).kills = UInt16.ofNat (killsOf k log)
  deaths : ∀ k, (entry players k).deaths = UInt16.ofNat (deathsOf k log)
  others : ∀ killer victim, .killed killer victim ∈ log → killer ≠ victim

namespace Ledger.Ok

variable {players players' : UMap ℕ (Player D F)} {log : List ScoreEvent}

theorem sameScores (h : Ok players log) (hsame : SameScores players players') : Ok players' log :=
  ⟨fun k => (hsame k).1.trans (h.kills k), fun k => (hsame k).2.trans (h.deaths k), h.others⟩

/-- The entry of a client is made anew or removed. -/
theorem reset (h : Ok players log) {d : ℕ} {e : ScoreEvent} (he : e = .joined d ∨ e = .left d)
    (hentry : ∀ k, entry players' k = if k = d then entry players' d else entry players k)
    (hkills : (entry players' d).kills = 0) (hdeaths : (entry players' d).deaths = 0) :
    Ok players' (log ++ [e]) := by
  have hresets : ∀ k, e.resets k = decide (d = k) := by
    intro k
    rcases he with rfl | rfl <;> rfl
  have hcounts : ∀ k, e.isKillOf k = false ∧ e.isDeathOf k = false := by
    intro k
    rcases he with rfl | rfl <;> exact ⟨rfl, rfl⟩
  refine ⟨fun k => ?_, fun k => ?_, fun killer victim hmem => ?_⟩
  · rw [hentry, killsOf, countSince_concat, hresets, (hcounts k).1]
    by_cases hk : k = d
    · simp [hk, hkills]
    · simp [hk, Ne.symm hk, h.kills k, killsOf]
  · rw [hentry, deathsOf, countSince_concat, hresets, (hcounts k).2]
    by_cases hk : k = d
    · simp [hk, hdeaths]
    · simp [hk, Ne.symm hk, h.deaths k, deathsOf]
  · rcases List.mem_append.mp hmem with hold | hnew
    · exact h.others killer victim hold
    · rcases he with rfl | rfl <;> simp at hnew

/-- One projectile: the kill it makes, if any, is counted on both sides. -/
theorem examination (h : Ok players log) {ρ : Rehash ℕ} {m : GameMap D} {e : Examination D F}
    (hbefore : e.before = players)
    (hcheck : checkProjectileCollisions ρ m e.before e.projectile = some (e.removed, e.after)) :
    Ok e.after (log ++ (e.scoreEvent m).toList) := by
  subst hbefore
  have hquiet : died e.before e.after = [] → e.scoreEvent m = none →
      Ok e.after (log ++ (e.scoreEvent m).toList) := by
    intro hdied hnone
    have haccounted := accounted_of_check hcheck
    rw [hnone, Option.toList_none, List.append_nil]
    refine h.sameScores fun k => ?_
    rw [kills_of_accounted haccounted, deaths_of_accounted haccounted, hdied]
    exact ⟨UInt16.add_zero _, UInt16.add_zero _⟩
  rcases check_cases hcheck with ⟨hnone, hsame⟩ | ⟨k, hhurts, -, -, hcan, hdamaged | hkilled⟩
  · refine hquiet ?_ ?_
    · rw [hsame]
      exact died_of_alive_eq fun _ => rfl
    · rw [Examination.scoreEvent, hnone]
      rfl
  · refine hquiet hdamaged.died_eq ?_
    have halive : (e.after.val k).alive = true := by
      rw [hdamaged.val]
      exact hcan.2.1
    rw [Examination.scoreEvent, hhurts, Option.bind_some, if_pos halive]
  · have hdead : (e.after.val k).alive = false := by rw [hkilled.victim]
    have hevent : e.scoreEvent m = some (.killed e.projectile.ownerId k) := by
      rw [Examination.scoreEvent, hhurts, Option.bind_some, hdead]
      rfl
    have haccounted := accounted_of_check hcheck
    have hdied := hkilled.died_eq hcan.1 hcan.2.1 hcan.2.2.1
    rw [hevent, Option.toList_some]
    refine ⟨fun j => ?_, fun j => ?_, fun killer victim hmem => ?_⟩
    · rw [kills_of_accounted haccounted, hdied, h.kills j, killsOf, killsOf, countSince_concat,
        ← UInt16.ofNat_add]
      simp [ScoreEvent.resets, ScoreEvent.isKillOf, List.count_singleton]
    · rw [deaths_of_accounted haccounted, hdied, h.deaths j, deathsOf, deathsOf, countSince_concat,
        ← UInt16.ofNat_add]
      simp [ScoreEvent.resets, ScoreEvent.isDeathOf, List.count_singleton]
    · rcases List.mem_append.mp hmem with hold | hnew
      · exact h.others killer victim hold
      · obtain ⟨rfl, rfl⟩ := ScoreEvent.killed.inj (List.mem_singleton.mp hnew)
        exact hcan.2.2.1.symm

/-- A whole pass over the projectiles. -/
theorem linked {ρ : Rehash ℕ} {m : GameMap D} {examined : List (Examination D F)}
    (h : Ok players log) (hlinked : Linked players examined players')
    (hchecks : ∀ e ∈ examined,
      checkProjectileCollisions ρ m e.before e.projectile = some (e.removed, e.after)) :
    Ok players' (log ++ examined.filterMap (Examination.scoreEvent m)) := by
  induction examined generalizing players log with
  | nil =>
    obtain rfl := hlinked
    simpa using h
  | cons e es ih =>
    obtain ⟨hbefore, hlinked⟩ := hlinked
    have hrest := ih (h.examination hbefore (hchecks e (by simp))) hlinked
      fun d hd => hchecks d (by simp [hd])
    rw [List.append_assoc] at hrest
    rw [List.filterMap_eq_flatMap_toList] at hrest ⊢
    exact hrest

end Ledger.Ok

/-! ## Steps -/

namespace Ledger

variable [Trig F D] [ToInt D] {m : GameMap D} {s t : Ledger D F} {e : GameEvent D F}

theorem ok_start (m : GameMap D) : Ok (start m : Ledger D F).game.players [] := by
  have hentry : ∀ k, entry (Game.initial m : Game D F).players k = Player.new 0 :=
    fun k => if_neg List.not_mem_nil
  refine ⟨fun k => ?_, fun k => ?_, nofun⟩
  · rw [start, hentry]
    rfl
  · rw [start, hentry]
    rfl

theorem ok_step (hm : m.borders ≠ []) (hmap : s.game.gameMap = m) (h : Ok s.game.players s.log)
    (hstep : s.step e = some t) : t.game.gameMap = m ∧ Ok t.game.players t.log := by
  obtain ⟨g, hgame, rfl⟩ := Option.map_eq_some_iff.mp hstep
  -- events of the clients that are there leave the scores and the history
  have hclient : g.gameMap = s.game.gameMap → scoreEvents s.game e = [] →
      SameScores s.game.players g.players →
      g.gameMap = m ∧ Ok g.players (s.log ++ scoreEvents s.game e) := by
    intro hkept hnone hsame
    rw [hnone, List.append_nil]
    exact ⟨hkept.trans hmap, h.sameScores hsame⟩
  cases e with
  | connect ρ d =>
    obtain rfl := Option.some.inj hgame
    have hnew : ∀ k, entry (s.game.players.insert ρ d (Player.new d)) k =
        if k = d then Player.new d else entry s.game.players k := by
      intro k
      rw [entry_eq, UMap.find?_insert, entry_eq]
      split_ifs <;> rfl
    have hown : entry (s.game.players.insert ρ d (Player.new d)) d = Player.new d := by
      rw [hnew, if_pos rfl]
    refine ⟨hmap, h.reset (.inl rfl) (fun k => (hnew k).trans ?_) ?_ ?_⟩
    · rw [← hown]
      rfl
    · exact congrArg Player.kills hown
    · exact congrArg Player.deaths hown
  | disconnect d =>
    obtain rfl := Option.some.inj hgame
    have hgone : ∀ k, entry (s.game.players.erase d) k =
        if k = d then Player.new 0 else entry s.game.players k := by
      intro k
      rw [entry_eq, UMap.find?_erase, entry_eq]
      split_ifs <;> rfl
    have hown : entry (s.game.players.erase d) d = Player.new 0 := by
      rw [hgone, if_pos rfl]
    refine ⟨hmap, h.reset (.inr rfl) (fun k => (hgone k).trans ?_) ?_ ?_⟩
    · rw [← hown]
      rfl
    · exact congrArg Player.kills hown
    · exact congrArg Player.deaths hown
  | tick ρ =>
    obtain ⟨players, examined, hmoved, hmap', hlinked, hexamined, hchecks⟩ :=
      examinations_of_tick hm hmap hgame
    refine ⟨hmap', ?_⟩
    simp only [scoreEvents, hexamined, Option.getD_some, hmap]
    exact (h.sameScores (.of_onlyCentres hmoved)).linked hlinked hchecks
  | spawn ρ d draw =>
    refine hclient ?_ rfl (sameScores_step hgame trivial)
    simp only [Game.step] at hgame
    split_ifs at hgame
    obtain rfl := Option.some.inj hgame
    exact gameMap_apply ρ draw .spawn
  | shoot ρ d =>
    refine hclient ?_ rfl (sameScores_step hgame trivial)
    obtain rfl := Option.some.inj hgame
    exact gameMap_apply ρ (0, 0) .shoot
  | changeOrientation ρ d angle =>
    refine hclient ?_ rfl (sameScores_step hgame trivial)
    obtain rfl := Option.some.inj hgame
    rfl
  | changeMovement ρ d velocityX velocityY =>
    refine hclient ?_ rfl (sameScores_step hgame trivial)
    obtain rfl := Option.some.inj hgame
    exact gameMap_apply ρ (0, 0) (.changeMovementDirection velocityX velocityY)

end Ledger

/-- **Scores.** In every run on a map whose border has a point, the kills and the deaths of a client
are those of the history since it last joined or left, modulo 2 ^ 16: every kill is counted once for
the killer and once for the victim, who is someone else. -/
theorem scores_of_reach [Trig F D] [ToInt D] {m : GameMap D} (hm : m.borders ≠ []) {s : Ledger D F}
    (h : Lts.Reach Ledger.step Lts.Any (Ledger.start m) s) :
    (∀ k ∈ s.game.players.keys,
      (s.game.players.val k).kills = UInt16.ofNat (killsOf k s.log) ∧
        (s.game.players.val k).deaths = UInt16.ofNat (deathsOf k s.log)) ∧
    ∀ killer victim, .killed killer victim ∈ s.log → killer ≠ victim := by
  obtain ⟨-, hok⟩ := h.invariant (I := fun s => s.game.gameMap = m ∧ Ledger.Ok s.game.players s.log)
    ⟨rfl, Ledger.ok_start m⟩ fun _ _ _ hI _ hstep => Ledger.ok_step hm hI.1 hI.2 hstep
  refine ⟨fun k hk => ?_, hok.others⟩
  have hentry : entry s.game.players k = s.game.players.val k := if_pos hk
  rw [← hentry]
  exact ⟨hok.kills k, hok.deaths k⟩

/-- Of the ten hits the last one is a kill. -/
theorem scoreEvents_tenShots : scoreEvents tenShots (.tick Rehash.front) = [.killed 0 1] := by
  have hmap : tenShots.gameMap = squareMap := rfl
  have hkills : ∀ i ∈ List.range 10,
      Examination.scoreEvent squareMap ⟨flyingShot, afterHits i, true, afterHits (i + 1)⟩
        = if i = 9 then some (.killed 0 1) else none := by
    intro i hi
    have hlt := List.mem_range.mp hi
    rw [Examination.scoreEvent, hurts_flyingShot (by omega), Option.bind_some,
      alive_afterHits_succ hlt]
    by_cases hlast : i = 9
    · simp only [hlast, decide_true, Bool.not_true, Bool.false_eq_true, if_false, if_true]
      rfl
    · simp [hlast]
  rw [scoreEvents, examinations_tenShots, Option.getD_some, hmap, tenExaminations,
    List.filterMap_map]
  exact (List.filterMap_congr hkills).trans rfl

theorem run_barrage_ledger : ∃ s : Ledger ℝ ℝ,
    Lts.run Ledger.step barrage (Ledger.start squareMap) = some s ∧
    s.log = [.joined 0, .joined 1, .killed 0 1] ∧ s.game.players = afterHits 10 := by
  have hjoin : Lts.run Ledger.step [.connect Rehash.front 0, .connect Rehash.front 1]
      (Ledger.start squareMap) = some (⟨joinedPair, [.joined 0, .joined 1]⟩ : Ledger ℝ ℝ) := rfl
  have hspawn : ∀ (g : Game ℝ ℝ) (log : List ScoreEvent) (k : ℕ) (draw : ℤ × ℤ),
      DrawAllowed g.gameMap draw → Lts.run Ledger.step [.spawn Rehash.front k draw] ⟨g, log⟩ =
        some ⟨spawnPlayer Rehash.front g k draw, log⟩ := by
    intro g log k draw hdraw
    simp [Ledger.step, Game.step, hdraw, scoreEvents]
  have hzero : Lts.run Ledger.step [.spawn Rehash.front 0 (0, 0)] ⟨joinedPair, _⟩
      = some ⟨spawnPlayer Rehash.front joinedPair 0 (0, 0), _⟩ :=
    hspawn joinedPair [.joined 0, .joined 1] 0 (0, 0)
      (drawAllowed_squareMap (by norm_num) (by norm_num))
  have hone : Lts.run Ledger.step [.spawn Rehash.front 1 (62, 0)]
      ⟨spawnPlayer Rehash.front joinedPair 0 (0, 0), _⟩ = some ⟨pair (0, 0) (62, 0), _⟩ :=
    hspawn _ [.joined 0, .joined 1] 1 (62, 0)
      (drawAllowed_squareMap (by norm_num) (by norm_num))
  have hshoot : Lts.run Ledger.step (List.replicate 10 (.shoot Rehash.front 0))
      ⟨pair (0, 0) (62, 0), [.joined 0, .joined 1]⟩
        = some (⟨tenShots, [.joined 0, .joined 1]⟩ : Ledger ℝ ℝ) := rfl
  obtain ⟨g, hg, hplayers⟩ := tick_tenShots
  have htick : Lts.run Ledger.step [.tick Rehash.front] ⟨tenShots, [.joined 0, .joined 1]⟩
      = some ⟨g, [.joined 0, .joined 1] ++ scoreEvents tenShots (.tick Rehash.front)⟩ := by
    simp [Ledger.step, Game.step, hg]
  rw [scoreEvents_tenShots] at htick
  refine ⟨⟨g, _⟩, ?_, rfl, hplayers⟩
  simp only [barrage, Lts.run_append, hjoin, hzero, hone, hshoot, htick, Option.bind_some]
  rfl

/-- Player 0 has one kill, and player 1 one death. -/
theorem scores_of_reach_barrage : ∃ s : Ledger ℝ ℝ,
    Lts.Reach Ledger.step Lts.Any (Ledger.start squareMap) s ∧
      s.log = [.joined 0, .joined 1, .killed 0 1] ∧
      (s.game.players.val 0).kills = 1 ∧ (s.game.players.val 1).deaths = 1 := by
  obtain ⟨s, hs, hlog, hplayers⟩ := run_barrage_ledger
  have hkeys : 0 ∈ s.game.players.keys ∧ 1 ∈ s.game.players.keys := by
    rw [hplayers, killed_afterHits.keys, killed_afterHits.keys]
    simp [(val_afterHits le_rfl).1]
  obtain ⟨hscores, -⟩ := scores_of_reach convexBorder_squareMap.1 (.of_run hs)
  refine ⟨s, .of_run hs, hlog, (hscores 0 hkeys.1).1.trans ?_, (hscores 1 hkeys.2).2.trans ?_⟩
  · rw [hlog]
    rfl
  · rw [hlog]
    rfl

end PRShooter
