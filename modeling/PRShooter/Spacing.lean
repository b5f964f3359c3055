import PRShooter.MapReach

/-!
# Players at a distance

In a tick every alive player is pushed off the others and then off the map, and where a push ends
depends on all pushes before it. `Spaced` says of the places before the first push that the pushes
cannot run into each other: an alive player comes near to one other alive player and to nothing
else, or only to players who are not alive and are all on one side of it. Each player then stays in
its reach, a distance from where it starts (`Spread`).
-/

namespace PRShooter

variable {F : Type}

/-! ## The test of two players -/

theorem checkCollisionCircle_comm (c1 c2 : Circle ℝ) :
    checkCollisionCircle c1 c2 = checkCollisionCircle c2 c1 := by
  rw [Bool.eq_iff_iff, checkCollisionCircle_iff, checkCollisionCircle_iff, distance_comm,
    add_comm c1.r]

section Test

variable {players : UMap ℕ (Player ℝ F)} {k j : ℕ}

theorem val_collidePlayers_of_ne {i : ℕ} (hk : i ≠ k) (hj : i ≠ j) :
    (collidePlayers k players j).val i = players.val i := by
  unfold collidePlayers
  split_ifs
  · rfl
  · rw [UMap.val_set_of_ne _ _ hj, UMap.val_set_of_ne _ _ hk]
  · rfl

theorem collidePlayers_self : collidePlayers k players k = players := if_pos rfl

theorem collidePlayers_of_missed
    (h : checkCollisionCircle (players.val k).toCircle (players.val j).toCircle = false) :
    collidePlayers k players j = players := by
  unfold collidePlayers
  rw [h, if_neg Bool.false_ne_true, ite_self]

/-- What the test of player `k` against player `j` does to the two, if it reports them. -/
structure Repelled (players players' : UMap ℕ (Player ℝ F)) (k j : ℕ) (t : ℝ) : Prop where
  pos : 0 < t
  first : (players'.val k).centre
    = (players.val k).centre + ((players.val k).centre - (players.val j).centre) * t
  second : (players'.val j).centre
    = (players.val j).centre - ((players.val k).centre - (players.val j).centre) * t
  length : t * distance (players.val k).centre (players.val j).centre
    = halfOverlap (players.val k).toCircle (players.val j).toCircle
  clear : checkCollisionCircle (players'.val k).toCircle (players'.val j).toCircle = false

theorem exists_repelled (hk : (players.val k).r = 30) (hj : (players.val j).r = 30)
    (hne : (players.val k).centre ≠ (players.val j).centre)
    (h : checkCollisionCircle (players.val k).toCircle (players.val j).toCircle = true) :
    ∃ t, Repelled players (collidePlayers k players j) k j t := by
  have hjk : j ≠ k := fun hjk => hne (by rw [hjk])
  obtain ⟨htouching, -, ⟨t, ht, hfirst, hsecond⟩, -, hclear, -⟩ :=
    pushedApart_of_collision (by norm_num [hk]) (by norm_num [hj]) hne h
  have hmoved : collidePlayers k players j =
      (players.set k (moveAlongNormalPlayer (players.val k) (players.val j)).1).set j
        (moveAlongNormalPlayer (players.val k) (players.val j)).2 := by
    unfold collidePlayers
    rw [if_neg hjk, if_pos h]
  have hvalk : (collidePlayers k players j).val k
      = (moveAlongNormalPlayer (players.val k) (players.val j)).1 := by
    rw [hmoved, UMap.val_set_of_ne _ _ hjk.symm, UMap.val_set_self]
  have hvalj : (collidePlayers k players j).val j
      = (moveAlongNormalPlayer (players.val k) (players.val j)).2 := by
    rw [hmoved, UMap.val_set_self]
  refine ⟨t, ht, by rw [hvalk, hfirst], by rw [hvalj, hsecond], ?_, by rw [hvalk, hvalj, hclear]⟩
  rw [hfirst, hsecond, distance_apart _ _ (by linarith)] at htouching
  rw [halfOverlap]
  push_cast
  linarith

namespace Repelled

variable {players' : UMap ℕ (Player ℝ F)} {t : ℝ}

theorem distance_first (h : Repelled players players' k j t) :
    distance (players.val k).centre (players'.val k).centre
      = halfOverlap (players.val k).toCircle (players.val j).toCircle := by
  rw [h.first, distance_moved, abs_of_pos h.pos, length_sub, h.length]

theorem distance_second (h : Repelled players players' k j t) :
    distance (players.val j).centre (players'.val j).centre
      = halfOverlap (players.val k).toCircle (players.val j).toCircle := by
  have hback : (players.val j).centre - ((players.val k).centre - (players.val j).centre) * t
      = (players.val j).centre + ((players.val k).centre - (players.val j).centre) * -t := by
    apply Point.ext' <;> simp <;> ring
  rw [h.second, hback, distance_moved, abs_neg, abs_of_pos h.pos, length_sub, h.length]

end Repelled

theorem halfOverlap_le {c1 c2 : Circle ℝ} (h1 : c1.r = 30) (h2 : c2.r = 30) :
    halfOverlap c1 c2 ≤ 30 := by
  rw [halfOverlap, h1, h2]
  push_cast
  linarith [distance_nonneg c1.centre c2.centre]

end Test

/-! ## Where the players start -/

/-- The dot product of two vectors. -/
def Point.dotProduct (u v : Point ℝ) : ℝ := u.x * v.x + u.y * v.y

section Start

variable (m : GameMap ℝ) (start : UMap ℕ (Player ℝ F)) (reach : ℕ → ℝ)

/-- The two do not collide as long as each of them is within its reach of where it starts. -/
def Apart (k j : ℕ) : Prop :=
  60 + reach k + reach j ≤ distance (start.val k).centre (start.val j).centre

/-- Player `k` may collide with player `j`. -/
def MayCollide (k j : ℕ) : Prop := j ∈ start.keys ∧ j ≠ k ∧ ¬ Apart start reach k j

/-- Two alive players who may collide with each other and with nothing else. -/
structure Paired (k j : ℕ) : Prop where
  mem : k ∈ start.keys ∧ j ∈ start.keys
  alive : (start.val k).alive = true ∧ (start.val j).alive = true
  ne : (start.val k).centre ≠ (start.val j).centre
  overlap : halfOverlap (start.val k).toCircle (start.val j).toCircle ≤ min (reach k) (reach j)
  others : ∀ i ∈ start.keys, i ≠ k → i ≠ j → Apart start reach k i ∧ Apart start reach j i
  clear : MapClear m (start.val k).centre (reach k)

open Classical in
/-- How far those that player `k` may collide with may push it. -/
noncomputable def crowd (k : ℕ) : ℝ :=
  Constants.playerRadius * (start.keys.countP fun j => MayCollide start reach k j : ℕ)

/-- An alive player who may collide with the map and with players who are not alive, all on one side
of it and none of them near another alive player. -/
structure Lone (k : ℕ) : Prop where
  mem : k ∈ start.keys
  alive : (start.val k).alive = true
  waiting : ∀ j, MayCollide start reach k j → (start.val j).alive = false ∧ 30 ≤ reach j ∧
    ∀ i ∈ start.keys, (start.val i).alive = true → i ≠ k → Apart start reach i j
  side : ∃ u : Point ℝ, ∀ j, MayCollide start reach k j →
    0 < u.dotProduct ((start.val k).centre - (start.val j).centre)
  fits : MapFits m (start.val k).centre (reach k) (crowd start reach k)

/-- Before a player loop, the players are so far from each other that no push leads into another
one: every alive player belongs to a pair, or is alone but for players who are not alive. -/
structure Spaced : Prop where
  nonneg : ∀ k, 0 ≤ reach k
  alive : ∀ k ∈ start.keys, (start.val k).alive = true →
    (∃ j, Paired m start reach k j) ∨ Lone m start reach k

end Start

/-! ## The loop -/

section Loop

variable {m : GameMap ℝ} {start players players' : UMap ℕ (Player ℝ F)} {reach : ℕ → ℝ}
  {done : List ℕ} {k j i : ℕ}

theorem Apart.symm (h : Apart start reach k j) : Apart start reach j k := by
  unfold Apart at *
  rw [distance_comm]
  linarith

theorem Apart.far (h : Apart start reach k j)
    (hk : distance (start.val k).centre (players.val k).centre ≤ reach k)
    (hj : distance (start.val j).centre (players.val j).centre ≤ reach j) :
    60 ≤ distance (players.val k).centre (players.val j).centre := by
  have hfirst := distance_triangle (start.val k).centre (players.val k).centre (start.val j).centre
  have hsecond := distance_triangle (players.val k).centre (players.val j).centre
    (start.val j).centre
  rw [distance_comm (players.val j).centre] at hsecond
  unfold Apart at h
  linarith

theorem ne_of_far {a b : Point ℝ} (h : 60 ≤ distance a b) : a ≠ b := by
  intro hab
  rw [distance_eq_zero_iff.mpr hab] at h
  norm_num at h

theorem missed_of_far {c1 c2 : Circle ℝ} (h1 : c1.r = 30) (h2 : c2.r = 30)
    (h : 60 ≤ distance c1.centre c2.centre) : checkCollisionCircle c1 c2 = false := by
  rw [← Bool.not_eq_true, checkCollisionCircle_iff, h1, h2, not_lt]
  nlinarith

theorem Lone.apart (h : Lone m start reach k) (hi : i ∈ start.keys)
    (halive : (start.val i).alive = true) (hik : i ≠ k) : Apart start reach k i := by
  by_contra hnear
  rw [(h.waiting i ⟨hi, hik, hnear⟩).1] at halive
  cases halive

variable (m start reach) in
/-- In the player loop after the turns of `done`: everybody is within reach, who may push players
that are not alive has not been moved before its turn and is where its own map loops have left it
after it, and the players of a pair have not been moved or do not collide any more. -/
structure Spread (done : List ℕ) (players : UMap ℕ (Player ℝ F)) : Prop where
  onlyCentres : OnlyCentres start players
  near : ∀ i, distance (start.val i).centre (players.val i).centre ≤ reach i
  waits : ∀ k, Lone m start reach k → k ∉ done → players.val k = start.val k ∧
    ∀ j, MayCollide start reach k j → players.val j = start.val j
  ended : ∀ k, Lone m start reach k → k ∈ done → ∃ p : Player ℝ F,
    p.Within (start.val k).centre (crowd start reach k) ∧ collideMap m p = some (players.val k)
  paired : ∀ k j, Paired m start reach k j →
    players.val k = start.val k ∧ players.val j = start.val j ∨
      checkCollisionCircle (players.val k).toCircle (players.val j).toCircle = false

theorem Spaced.spread (h : Spaced m start reach) : Spread m start reach [] start where
  onlyCentres := .refl start
  near i := by
    rw [distance_eq_zero_iff.mpr rfl]
    exact h.nonneg i
  waits _ _ _ := ⟨rfl, fun _ _ => rfl⟩
  ended _ _ hmem := absurd hmem List.not_mem_nil
  paired _ _ _ := .inl ⟨rfl, rfl⟩

namespace Spread

theorem r (h : Spread m start reach done players) (hr : RadiusOk start) (hi : i ∈ start.keys) :
    (players.val i).r = 30 :=
  (h.onlyCentres.r i).trans (hr i hi)

/-- A turn in which nobody is moved, of a player who is not alone. -/
theorem skip (h : Spread m start reach done players) (hlone : ¬ Lone m start reach k) :
    Spread m start reach (k :: done) players where
  onlyCentres := h.onlyCentres
  near := h.near
  waits i hi hdone := h.waits i hi fun hmem => hdone (List.mem_cons_of_mem k hmem)
  ended i hi hdone :=
    h.ended i hi ((List.mem_cons.mp hdone).resolve_left fun hik => hlone (hik ▸ hi))
  paired := h.paired

/-- After pushes that have moved only players in `S`. -/
theorem moved (h : Spread m start reach done players) (hr : RadiusOk start) {done' : List ℕ}
    (hcentres : OnlyCentres start players')
    (hreach : ∀ i, distance (start.val i).centre (players'.val i).centre ≤ reach i)
    {S : ℕ → Prop} (hsame : ∀ i, ¬ S i → players'.val i = players.val i)
    (hwaits : ∀ i, Lone m start reach i → i ∉ done' →
      i ∉ done ∧ ¬ S i ∧ ∀ j, MayCollide start reach i j → ¬ S j)
    (hended : ∀ i, Lone m start reach i → i ∈ done' → ∃ p : Player ℝ F,
      p.Within (start.val i).centre (crowd start reach i) ∧ collideMap m p = some (players'.val i))
    (hpaired : ∀ a b, Paired m start reach a b → S a ∨ S b → Apart start reach a b ∨
      checkCollisionCircle (players'.val a).toCircle (players'.val b).toCircle = false) :
    Spread m start reach done' players' := by
  refine ⟨hcentres, hreach, fun i hi hdone => ?_, hended, fun a b hab => ?_⟩
  · obtain ⟨hold, hself, hothers⟩ := hwaits i hi hdone
    obtain ⟨hval, hwaiting⟩ := h.waits i hi hold
    exact ⟨(hsame i hself).trans hval, fun j hj => (hsame j (hothers j hj)).trans (hwaiting j hj)⟩
  · by_cases hS : S a ∨ S b
    · rcases hpaired a b hab hS with happart | hmissed
      · exact .inr (missed_of_far ((hcentres.r a).trans (hr a hab.mem.1))
          ((hcentres.r b).trans (hr b hab.mem.2)) (happart.far (hreach a) (hreach b)))
      · exact .inr hmissed
    · obtain ⟨ha, hb⟩ := not_or.mp hS
      rw [hsame a ha, hsame b hb]
      exact h.paired a b hab

/-! ### A player of a pair -/

/-- The two of a pair have been pushed apart. -/
theorem repelled (h : Spread m start reach done players) (hr : RadiusOk start)
    (hpair : Paired m start reach k j) (hlone : ¬ Lone m start reach k)
    (hnear : ¬ Apart start reach k j) (hval : players.val k = start.val k)
    (hval' : players.val j = start.val j)
    {t : ℝ} (hpushed : Repelled players (collidePlayers k players j) k j t) :
    Spread m start reach done (collidePlayers k players j) := by
  have hsame : ∀ i, ¬ (i = k ∨ i = j) → (collidePlayers k players j).val i = players.val i :=
    fun i hi => val_collidePlayers_of_ne (not_or.mp hi).1 (not_or.mp hi).2
  obtain ⟨hle, hle'⟩ := le_min_iff.mp hpair.overlap
  have hreach : ∀ i,
      distance (start.val i).centre ((collidePlayers k players j).val i).centre ≤ reach i := by
    intro i
    by_cases hik : i = k
    · subst hik
      rw [← hval, hpushed.distance_first, hval, hval']
      exact hle
    by_cases hij : i = j
    · subst hij
      rw [← hval', hpushed.distance_second, hval, hval']
      exact hle'
    rw [hsame i (not_or.mpr ⟨hik, hij⟩)]
    exact h.near i
  -- a lone player is neither of the two, and neither is anyone near it
  have hlones : ∀ i, Lone m start reach i → ¬ (i = k ∨ i = j) := by
    rintro i hi (rfl | rfl)
    · exact hlone hi
    · exact hnear (hi.apart hpair.mem.1 hpair.alive.1 fun hki => hpair.ne (by rw [hki])).symm
  have hothers : ∀ a b, a = k ∨ a = j → b ∈ start.keys → ¬ (b = k ∨ b = j) →
      Apart start reach a b := by
    rintro a b ha hb hne
    obtain ⟨hbk, hbj⟩ := not_or.mp hne
    rcases ha with rfl | rfl
    · exact (hpair.others b hb hbk hbj).1
    · exact (hpair.others b hb hbk hbj).2
  refine h.moved hr (h.onlyCentres.trans (onlyCentres_collidePlayers k players j)) hreach hsame
    (fun i hi hdone => ⟨hdone, hlones i hi, fun b hb => ?_⟩) (fun i hi hdone => ?_)
    fun a b hab hS => ?_
  · have hdead := (hi.waiting b hb).1
    rintro (rfl | rfl)
    · rw [hpair.alive.1] at hdead
      cases hdead
    · rw [hpair.alive.2] at hdead
      cases hdead
  · rw [hsame i (hlones i hi)]
    exact h.ended i hi hdone
  · by_cases ha : a = k ∨ a = j
    · by_cases hb : b = k ∨ b = j
      · right
        rcases ha with rfl | rfl <;> rcases hb with rfl | rfl
        · exact absurd rfl hab.ne
        · exact hpushed.clear
        · rw [checkCollisionCircle_comm]
          exact hpushed.clear
        · exact absurd rfl hab.ne
      · exact .inl (hothers a b ha hab.mem.2 hb)
    · exact .inl (hothers b a (hS.resolve_left ha) hab.mem.1 ha).symm

/-- A test in the turn of a player of a pair. -/
theorem collidePaired (h : Spread m start reach done players) (hr : RadiusOk start)
    (hpair : Paired m start reach k j) (hlone : ¬ Lone m start reach k) (hi : i ∈ start.keys)
    (hik : i ≠ k) : (players.val k).centre ≠ (players.val i).centre ∧
      Spread m start reach done (collidePlayers k players i) := by
  have hrk := h.r hr hpair.mem.1
  have hri := h.r hr hi
  by_cases happart : Apart start reach k i
  · have hfar := happart.far (h.near k) (h.near i)
    rw [collidePlayers_of_missed (missed_of_far hrk hri hfar)]
    exact ⟨ne_of_far hfar, h⟩
  obtain rfl : i = j := by
    by_contra hij
    exact happart (hpair.others i hi hik hij).1
  cases htouch : checkCollisionCircle (players.val k).toCircle (players.val i).toCircle with
  | false =>
    rw [collidePlayers_of_missed htouch]
    refine ⟨fun hcentre => ?_, h⟩
    rw [(checkCollisionCircle_of_centre_eq hcentre).mpr (by rw [hrk, hri]; norm_num)] at htouch
    cases htouch
  | true =>
    rcases h.paired k i hpair with ⟨hval, hval'⟩ | hmissed
    · have hne : (players.val k).centre ≠ (players.val i).centre := by
        rw [hval, hval']
        exact hpair.ne
      obtain ⟨t, hpushed⟩ := exists_repelled hrk hri hne htouch
      exact ⟨hne, h.repelled hr hpair hlone happart hval hval' hpushed⟩
    · rw [hmissed] at htouch
      cases htouch

/-- The turn of a player of a pair. The map loops leave it where the other one has pushed it. -/
theorem turnPaired (h : Spread m start reach done players) (hr : RadiusOk start)
    (hpair : Paired m start reach k j) (hlone : ¬ Lone m start reach k) :
    Tests.apart.Turn m players k ∧ ∀ players', collidePlayer m players k = some players' →
      Spread m start reach (k :: done) players' := by
  have hfold : ∀ js ⊆ start.keys, ∀ {players : UMap ℕ (Player ℝ F)},
      Spread m start reach done players →
        Lts.AlongFold (collidePlayers k) (fun ps i => i ≠ k →
          Tests.apart.players (ps.val k).toCircle (ps.val i).toCircle) js players ∧
        Spread m start reach done (js.foldl (collidePlayers k) players) := by
    intro js
    induction js with
    | nil => exact fun _ _ h => ⟨trivial, h⟩
    | cons i js ih =>
      intro hjs players h
      have hi := hjs List.mem_cons_self
      have hstep : (i ≠ k → (players.val k).centre ≠ (players.val i).centre) ∧
          Spread m start reach done (collidePlayers k players i) := by
        by_cases hik : i = k
        · rw [hik, collidePlayers_self]
          exact ⟨fun hne => absurd rfl hne, h⟩
        · obtain ⟨hne, hnext⟩ := h.collidePaired hr hpair hlone hi hik
          exact ⟨fun _ => hne, hnext⟩
      obtain ⟨hrest, hend⟩ := ih (fun a ha => hjs (List.mem_cons_of_mem i ha)) hstep.2
      exact ⟨(Lts.alongFold_cons _ _).mpr ⟨hstep.1, hrest⟩, hend⟩
  have hkeys := h.onlyCentres.1
  obtain ⟨htests, hend⟩ := hfold players.keys (by rw [hkeys]; exact List.Subset.refl _) h
  obtain ⟨hmap, hstays⟩ := hpair.clear.apart ⟨hend.r hr hpair.mem.1, hend.near k⟩
  refine ⟨fun _ => ⟨htests, hmap⟩, fun players' hturn => ?_⟩
  have halive := (h.onlyCentres.alive k).trans hpair.alive.1
  unfold collidePlayer at hturn
  rw [if_neg (by simp [halive])] at hturn
  obtain ⟨q, hq, rfl⟩ := Option.map_eq_some_iff.mp hturn
  obtain rfl := hstays q hq
  rw [UMap.set_val_self]
  exact hend.skip hlone

end Spread

/-! ### A lone player -/

variable (m start reach) in
/-- In the turn of player `k`, which may push only players who are not alive, after `n` of them: it
is still on the same side of them, those in `pending` have not been moved, and nobody else has
been since the state `before`. -/
structure Pushing (u : Point ℝ) (k n : ℕ) (pending : List ℕ)
    (before players : UMap ℕ (Player ℝ F)) : Prop where
  onlyCentres : OnlyCentres start players
  same : ∀ i, i ≠ k → ¬ MayCollide start reach k i → players.val i = before.val i
  pending : ∀ j ∈ pending, MayCollide start reach k j → players.val j = start.val j
  self : distance (start.val k).centre (players.val k).centre ≤ 30 * n
  pushed : ∀ j, MayCollide start reach k j →
    distance (start.val j).centre (players.val j).centre ≤ 30
  side : ∀ j, MayCollide start reach k j →
    0 < u.dotProduct ((players.val k).centre - (players.val j).centre)

namespace Pushing

variable {u : Point ℝ} {n : ℕ} {js : List ℕ} {before : UMap ℕ (Player ℝ F)}

theorem tail (h : Pushing start reach u k n (j :: js) before players) :
    Pushing start reach u k n js before players :=
  { h with pending := fun i hi => h.pending i (List.mem_cons_of_mem j hi) }

theorem succ (h : Pushing start reach u k n js before players) :
    Pushing start reach u k (n + 1) js before players :=
  { h with self := h.self.trans (by push_cast; linarith) }

/-- One that may be pushed has been pushed. -/
theorem repelled (h : Pushing start reach u k n (j :: js) before players)
    (hnodup : j ∉ js) (hr : RadiusOk start) (hk : k ∈ start.keys) (hj : MayCollide start reach k j)
    {t : ℝ} (hpushed : Repelled players (collidePlayers k players j) k j t) :
    Pushing start reach u k (n + 1) js before (collidePlayers k players j) := by
  have hcentres := h.onlyCentres
  have hle : halfOverlap (players.val k).toCircle (players.val j).toCircle ≤ 30 :=
    halfOverlap_le ((hcentres.r k).trans (hr k hk)) ((hcentres.r j).trans (hr j hj.1))
  have hside := h.side j hj
  have hposition : ∀ i, u.dotProduct ((players.val k).centre
      + ((players.val k).centre - (players.val j).centre) * t - i)
        = u.dotProduct ((players.val k).centre - i)
          + u.dotProduct ((players.val k).centre - (players.val j).centre) * t := by
    intro i
    simp only [Point.dotProduct, Point.add_x, Point.add_y, Point.sub_x, Point.sub_y, Point.mul_x,
      Point.mul_y]
    ring
  refine ⟨hcentres.trans (onlyCentres_collidePlayers k players j), fun i hik hi => ?_,
    fun i hi hmay => ?_, ?_, fun i hi => ?_, fun i hi => ?_⟩
  · rw [val_collidePlayers_of_ne hik fun hij => hi (hij ▸ hj)]
    exact h.same i hik hi
  · rw [val_collidePlayers_of_ne hmay.2.1 fun hij : i = j => hnodup (hij ▸ hi)]
    exact h.pending i (List.mem_cons_of_mem j hi) hmay
  · have htriangle := distance_triangle (start.val k).centre (players.val k).centre
      ((collidePlayers k players j).val k).centre
    rw [hpushed.distance_first] at htriangle
    push_cast
    linarith [h.self]
  · by_cases hij : i = j
    · subst hij
      rw [← h.pending i List.mem_cons_self hi, hpushed.distance_second]
      exact hle
    · rw [val_collidePlayers_of_ne hi.2.1 hij]
      exact h.pushed i hi
  · have hgain : 0 < u.dotProduct ((players.val k).centre - (players.val j).centre) * t :=
      mul_pos hside hpushed.pos
    by_cases hij : i = j
    · subst hij
      have hgap : u.dotProduct ((players.val k).centre
          + ((players.val k).centre - (players.val i).centre) * t
          - ((players.val i).centre - ((players.val k).centre - (players.val i).centre) * t))
            = u.dotProduct ((players.val k).centre - (players.val i).centre)
              + 2 * (u.dotProduct ((players.val k).centre - (players.val i).centre) * t) := by
        simp only [Point.dotProduct, Point.add_x, Point.add_y, Point.sub_x, Point.sub_y,
          Point.mul_x, Point.mul_y]
        ring
      rw [hpushed.first, hpushed.second, hgap]
      linarith
    · rw [val_collidePlayers_of_ne hi.2.1 hij, hpushed.first, hposition]
      linarith [h.side i hi]

open Classical in
/-- A test in the turn of a lone player. -/
theorem step (h : Pushing start reach u k n (j :: js) before players) (hnew : j ∉ js)
    (hr : RadiusOk start) (hk : k ∈ start.keys) (hj : j ∈ start.keys)
    (hbefore : ∀ i, distance (start.val i).centre (before.val i).centre ≤ reach i)
    (hreach : 30 * (n : ℝ) ≤ reach k) :
    (j ≠ k → (players.val k).centre ≠ (players.val j).centre) ∧
      Pushing start reach u k (n + if MayCollide start reach k j then 1 else 0) js before
        (collidePlayers k players j) := by
  have hrk := (h.onlyCentres.r k).trans (hr k hk)
  have hrj := (h.onlyCentres.r j).trans (hr j hj)
  by_cases hmay : MayCollide start reach k j
  · have hne : (players.val k).centre ≠ (players.val j).centre := by
      intro hcentre
      have hside := h.side j hmay
      rw [hcentre] at hside
      simp [Point.dotProduct] at hside
    rw [if_pos hmay]
    refine ⟨fun _ => hne, ?_⟩
    cases htouch : checkCollisionCircle (players.val k).toCircle (players.val j).toCircle with
    | false =>
      rw [collidePlayers_of_missed htouch]
      exact h.tail.succ
    | true =>
      obtain ⟨t, hpushed⟩ := exists_repelled hrk hrj hne htouch
      exact h.repelled hnew hr hk hmay hpushed
  rw [if_neg hmay, add_zero]
  by_cases hjk : j = k
  · rw [hjk, collidePlayers_self]
    exact ⟨fun hne => absurd rfl hne, h.tail⟩
  have happart : Apart start reach k j := by
    by_contra hnear
    exact hmay ⟨hj, hjk, hnear⟩
  have hfar : 60 ≤ distance (players.val k).centre (players.val j).centre := by
    refine happart.far (h.self.trans hreach) ?_
    rw [h.same j hjk hmay]
    exact hbefore j
  rw [collidePlayers_of_missed (missed_of_far hrk hrj hfar)]
  exact ⟨fun _ => ne_of_far hfar, h.tail⟩

open Classical in
/-- The tests in the turn of a lone player. -/
theorem foldl (hr : RadiusOk start) (hk : k ∈ start.keys)
    (hbefore : ∀ i, distance (start.val i).centre (before.val i).centre ≤ reach i) (js : List ℕ) :
    js ⊆ start.keys → js.Nodup → ∀ {n : ℕ} {players : UMap ℕ (Player ℝ F)},
      Pushing start reach u k n js before players →
      30 * ((n + js.countP fun j => MayCollide start reach k j : ℕ) : ℝ) ≤ reach k →
        Lts.AlongFold (collidePlayers k) (fun ps i => i ≠ k →
          Tests.apart.players (ps.val k).toCircle (ps.val i).toCircle) js players ∧
        Pushing start reach u k (n + js.countP fun j => MayCollide start reach k j) [] before
          (js.foldl (collidePlayers k) players) := by
  induction js with
  | nil => exact fun _ _ _ _ h _ => ⟨trivial, h⟩
  | cons j js ih =>
    intro hjs hnodup n players h hreach
    obtain ⟨hnew, hnodup⟩ := List.nodup_cons.mp hnodup
    have hn : 30 * (n : ℝ) ≤ reach k :=
      le_trans (mul_le_mul_of_nonneg_left (Nat.cast_le.mpr (Nat.le_add_right _ _)) (by norm_num))
        hreach
    have hcount : n + ((j :: js).countP fun j => MayCollide start reach k j)
        = n + (if MayCollide start reach k j then 1 else 0)
          + js.countP fun j => MayCollide start reach k j := by
      simp only [List.countP_cons, decide_eq_true_eq]
      omega
    rw [hcount] at hreach ⊢
    obtain ⟨hne, hnext⟩ := h.step hnew hr hk (hjs List.mem_cons_self) hbefore hn
    obtain ⟨htests, hend⟩ :=
      ih (fun a ha => hjs (List.mem_cons_of_mem j ha)) hnodup hnext hreach
    exact ⟨(Lts.alongFold_cons _ _).mpr ⟨hne, htests⟩, hend⟩

end Pushing

theorem Lone.crowd_le (h : Lone m start reach k) : crowd start reach k ≤ reach k :=
  (le_mapReach (mul_nonneg (Nat.cast_nonneg 30) (Nat.cast_nonneg _))).trans h.fits.reach

theorem Lone.not_mayCollide (h : Lone m start reach k) (halive : (start.val i).alive = true) :
    ¬ MayCollide start reach k i := by
  intro hmay
  rw [(h.waiting i hmay).1] at halive
  cases halive

namespace Spread

/-- After the tests against the players and the map loops in the turn of a lone player. -/
theorem ofPushing (h : Spread m start reach done players) (hlone : Lone m start reach k)
    {u : Point ℝ} {n : ℕ} {pushed : UMap ℕ (Player ℝ F)} {p q : Player ℝ F}
    (hpushed : Pushing start reach u k n [] players pushed)
    (hp : p.Within (start.val k).centre (crowd start reach k)) (hq : collideMap m p = some q)
    (hval : pushed.val k = p) (hr : RadiusOk start) :
    Spread m start reach (k :: done) (pushed.set k q) := by
  have hwithin := (hlone.fits.apart hp).2 q hq
  have hcentres : OnlyCentres start (pushed.set k q) :=
    hpushed.onlyCentres.trans (.set (hval ▸ moved_collideMap hq))
  have hsame : ∀ i, ¬ (i = k ∨ MayCollide start reach k i) →
      (pushed.set k q).val i = players.val i := by
    intro i hi
    obtain ⟨hik, hfar⟩ := not_or.mp hi
    rw [UMap.val_set_of_ne _ _ hik]
    exact hpushed.same i hik hfar
  have hreach : ∀ i,
      distance (start.val i).centre ((pushed.set k q).val i).centre ≤ reach i := by
    intro i
    by_cases hik : i = k
    · rw [hik, UMap.val_set_self]
      exact hwithin.2
    by_cases hi : MayCollide start reach k i
    · rw [UMap.val_set_of_ne _ _ hik]
      exact (hpushed.pushed i hi).trans (hlone.waiting i hi).2.1
    · rw [hsame i (not_or.mpr ⟨hik, hi⟩)]
      exact h.near i
  -- nobody else who is alive has been moved
  have halive : ∀ i, i ≠ k → (start.val i).alive = true →
      ¬ (i = k ∨ MayCollide start reach k i) :=
    fun i hik hi => not_or.mpr ⟨hik, hlone.not_mayCollide hi⟩
  refine h.moved hr hcentres hreach hsame (fun i hi hdone => ?_) (fun i hi hdone => ?_)
    fun a b hab hS => .inl ?_
  · have hik : i ≠ k := fun hik => hdone (hik ▸ List.mem_cons_self)
    refine ⟨fun hmem => hdone (List.mem_cons_of_mem k hmem), halive i hik hi.alive, ?_⟩
    rintro b hb (rfl | hmay)
    · exact hi.not_mayCollide hlone.alive hb
    · exact hb.2.2 ((hlone.waiting b hmay).2.2 i hi.mem hi.alive hik)
  · by_cases hik : i = k
    · subst hik
      exact ⟨p, hp, by rw [UMap.val_set_self, hq]⟩
    · rw [hsame i (halive i hik hi.alive)]
      exact h.ended i hi ((List.mem_cons.mp hdone).resolve_left hik)
  · have habne : a ≠ b := fun hab' => hab.ne (by rw [hab'])
    by_cases hak : a = k
    · subst hak
      exact hlone.apart hab.mem.2 hab.alive.2 habne.symm
    · have hbk : b = k := by
        by_contra hbk
        exact hS.elim (halive a hak hab.alive.1) (halive b hbk hab.alive.2)
      subst hbk
      exact (hlone.apart hab.mem.1 hab.alive.1 habne).symm

/-- The turn of a lone player. -/
theorem turnLone (h : Spread m start reach done players) (hr : RadiusOk start)
    (hlone : Lone m start reach k) (hnew : k ∉ done) :
    Tests.apart.Turn m players k ∧ ∀ players', collidePlayer m players k = some players' →
      Spread m start reach (k :: done) players' := by
  classical
  obtain ⟨hself, hwaiting⟩ := h.waits k hlone hnew
  obtain ⟨u, hside⟩ := hlone.side
  have hstart : Pushing start reach u k 0 players.keys players players := by
    refine ⟨h.onlyCentres, fun _ _ _ => rfl, fun j _ hj => hwaiting j hj, ?_, fun j hj => ?_,
      fun j hj => ?_⟩
    · rw [hself, distance_eq_zero_iff.mpr rfl]
      norm_num
    · rw [hwaiting j hj, distance_eq_zero_iff.mpr rfl]
      norm_num
    · rw [hself, hwaiting j hj]
      exact hside j hj
  have hkeys := h.onlyCentres.1
  have hreach : 30 * ((0 + players.keys.countP fun j => MayCollide start reach k j : ℕ) : ℝ)
      ≤ reach k := by
    rw [zero_add, hkeys]
    exact hlone.crowd_le
  obtain ⟨htests, hend⟩ := Pushing.foldl hr hlone.mem h.near players.keys
    (by rw [hkeys]; exact List.Subset.refl _) players.nodup hstart hreach
  have hp : ((players.keys.foldl (collidePlayers k) players).val k).Within (start.val k).centre
      (crowd start reach k) := by
    refine ⟨(hend.onlyCentres.r k).trans (hr k hlone.mem), hend.self.trans_eq ?_⟩
    rw [zero_add, hkeys]
    rfl
  refine ⟨fun _ => ⟨htests, (hlone.fits.apart hp).1⟩, fun players' hturn => ?_⟩
  have halive := (h.onlyCentres.alive k).trans hlone.alive
  unfold collidePlayer at hturn
  rw [if_neg (by simp [halive])] at hturn
  obtain ⟨q, hq, rfl⟩ := Option.map_eq_some_iff.mp hturn
  exact h.ofPushing hlone hend hp hq rfl hr

end Spread

/-! ### All turns -/

namespace Spaced

/-- One turn. -/
theorem turn (h : Spaced m start reach) (hr : RadiusOk start)
    (hspread : Spread m start reach done players) (hk : k ∈ start.keys) (hnew : k ∉ done) :
    Tests.apart.Turn m players k ∧ ∀ players', collidePlayer m players k = some players' →
      Spread m start reach (k :: done) players' := by
  by_cases hlone : Lone m start reach k
  · exact hspread.turnLone hr hlone hnew
  by_cases halive : (start.val k).alive = true
  · obtain ⟨j, hpair⟩ := (h.alive k hk halive).resolve_right hlone
    exact hspread.turnPaired hr hpair hlone
  · have hdead : (players.val k).alive = false := by
      rw [hspread.onlyCentres.alive]
      simpa using halive
    refine ⟨fun hturn => ?_, fun players' hturn => ?_⟩
    · rw [hdead] at hturn
      cases hturn
    · obtain rfl : players = players' := by
        unfold collidePlayer at hturn
        rw [if_pos hdead] at hturn
        exact Option.some.inj hturn
      exact hspread.skip hlone

theorem run (h : Spaced m start reach) (hr : RadiusOk start) (ks : List ℕ) :
    ∀ {done : List ℕ} {players : UMap ℕ (Player ℝ F)}, Spread m start reach done players →
      ks ⊆ start.keys → (ks.reverse ++ done).Nodup →
        Lts.Along (collidePlayer m) (Tests.apart.Turn m) ks players ∧
        ∀ players', Lts.run (collidePlayer m) ks players = some players' →
          Spread m start reach (ks.reverse ++ done) players' := by
  induction ks with
  | nil =>
    refine fun hspread _ _ => ⟨trivial, fun players' hrun => ?_⟩
    obtain rfl := Option.some.inj hrun
    exact hspread
  | cons k ks ih =>
    intro done players hspread hsub hnodup
    have hsplit : (k :: ks).reverse ++ done = ks.reverse ++ (k :: done) := by simp
    rw [hsplit] at hnodup ⊢
    have hnew : k ∉ done := (List.nodup_cons.mp (List.nodup_append.mp hnodup).2.1).1
    obtain ⟨htests, hturn⟩ := h.turn hr hspread (hsub List.mem_cons_self) hnew
    have hnext := fun u hu => ih (hturn u hu) (fun a ha => hsub (List.mem_cons_of_mem k ha)) hnodup
    refine ⟨⟨htests, fun u hu => (hnext u hu).1⟩, fun players' hrun => ?_⟩
    obtain ⟨u, hu, hrest⟩ := Option.bind_eq_some_iff.mp hrun
    exact (hnext u hu).2 players' hrest

/-- **Player loop.** If the players are far enough from each other before the player loop, then no
points coincide where they are tested in it, and it leaves everybody in reach. -/
theorem loop (h : Spaced m start reach) (hr : RadiusOk start) :
    Lts.Along (collidePlayer m) (Tests.apart.Turn m) start.keys start ∧
      ∀ players', checkPlayerCollisions m start = some players' →
        Spread m start reach (start.keys.reverse ++ []) players' :=
  h.run hr start.keys h.spread (List.Subset.refl _) (by simpa using start.nodup)

end Spaced

end Loop

end PRShooter
