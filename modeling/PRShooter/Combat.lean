import PRShooter.ProjectileRange
import Mathlib.Algebra.BigOperators.Group.Finset.Basic

/-!
# Combat

The loop of `checkCollisions` over the projectiles, as it is written: an iterator that goes on or
erases under itself, over a players map that each projectile may change. The loop keeps a record of
what it examines; the kills, the deaths and the players who die are then counted over the record.
-/

set_option linter.unusedSectionVars false

namespace PRShooter

variable {D F : Type} [Add D] [Sub D] [Mul D] [Div D] [Neg D] [Zero D] [One D] [NatCast D]
  [OfScientific D] [LT D] [LE D] [DecidableLT D] [DecidableLE D] [HasSqrt D] [Zero F]

/-! ## The loop with its iterator -/

/-- One projectile examined: the players before and after, and whether it is erased. -/
structure Examination (D F : Type) where
  projectile : Projectile D
  before : UMap ℕ (Player D F)
  removed : Bool
  after : UMap ℕ (Player D F)

/-- The loop over the projectiles in `checkCollisions` from position `i` on: the players and the
projectiles in the end, and what was examined. -/
def eraseLoop (ρ : Rehash ℕ) (m : GameMap D) (players : UMap ℕ (Player D F))
    (projectiles : List (Projectile D)) (i : ℕ) :
    Option (UMap ℕ (Player D F) × List (Projectile D) × List (Examination D F)) :=
  if h : i < projectiles.length then
    match checkProjectileCollisions ρ m players projectiles[i] with
    | none => none
    | some (hit, players') =>
      let rest :=
        if hit then eraseLoop ρ m players' (projectiles.eraseIdx i) i
        else eraseLoop ρ m players' projectiles (i + 1)
      rest.map fun (players'', left, examined) =>
        (players'', left, ⟨projectiles[i], players, hit, players'⟩ :: examined)
  else some (players, projectiles, [])
termination_by projectiles.length - i
decreasing_by
  · rw [List.length_eraseIdx_of_lt h]
    omega
  · omega

/-- Each examination starts with the players the one before has left. -/
def Linked : UMap ℕ (Player D F) → List (Examination D F) → UMap ℕ (Player D F) → Prop
  | players, [], players' => players = players'
  | players, e :: es, players' => e.before = players ∧ Linked e.after es players'

/-- The projectiles that are not erased. -/
def survivors (examined : List (Examination D F)) : List (Projectile D) :=
  (examined.filter fun e => !e.removed).map Examination.projectile

/-- The loop examines every projectile once, in order, and erases those that hit something. -/
theorem eraseLoop_eq {m : GameMap D} (hm : m.borders ≠ []) (ρ : Rehash ℕ)
    (projectiles : List (Projectile D)) (players : UMap ℕ (Player D F))
    (done : List (Projectile D)) :
    ∃ players' examined,
      eraseLoop ρ m players (done ++ projectiles) done.length =
        some (players', done ++ survivors examined, examined) ∧
      projectileLoop ρ m players projectiles = some (players', survivors examined) ∧
      examined.map Examination.projectile = projectiles ∧ Linked players examined players' ∧
      ∀ e ∈ examined,
        checkProjectileCollisions ρ m e.before e.projectile = some (e.removed, e.after) := by
  induction projectiles generalizing players done with
  | nil =>
    refine ⟨players, [], ?_, rfl, rfl, rfl, by simp⟩
    unfold eraseLoop
    rw [dif_neg (by simp)]
    rfl
  | cons p ps ih =>
    obtain ⟨⟨hit, players₁⟩, hcheck⟩ :=
      Option.isSome_iff_exists.mp (checkProjectileCollisions_isSome hm ρ players p)
    have hlt : done.length < (done ++ p :: ps).length := by simp
    have hget : (done ++ p :: ps)[done.length] = p := by simp
    cases hit with
    | true =>
      obtain ⟨players', examined, hloop, hsimple, hprojectiles, hlinked, hall⟩ := ih players₁ done
      refine ⟨players', ⟨p, players, true, players₁⟩ :: examined, ?_, ?_, by simp [hprojectiles],
        ⟨rfl, hlinked⟩, ?_⟩
      · have herase : (done ++ p :: ps).eraseIdx done.length = done ++ ps := by
          rw [List.eraseIdx_append_of_length_le le_rfl]
          simp
        unfold eraseLoop
        rw [dif_pos hlt]
        simp only [hget, hcheck, if_true, herase, hloop]
        rfl
      · exact projectileLoop_cons_eq hcheck hsimple
      · simpa [hcheck] using hall
    | false =>
      obtain ⟨players', examined, hloop, hsimple, hprojectiles, hlinked, hall⟩ :=
        ih players₁ (done ++ [p])
      refine ⟨players', ⟨p, players, false, players₁⟩ :: examined, ?_, ?_, by simp [hprojectiles],
        ⟨rfl, hlinked⟩, ?_⟩
      · have hnext : done ++ p :: ps = done ++ [p] ++ ps := by simp
        have hlength : done.length + 1 = (done ++ [p]).length := by simp
        unfold eraseLoop
        rw [dif_pos hlt]
        simp only [hget, hcheck]
        rw [hnext, hlength, hloop]
        simp [survivors]
      · exact projectileLoop_cons_eq hcheck hsimple
      · simpa [hcheck] using hall

/-! ## What an examination does to the players -/

/-- The projectile can hurt the player: alive, not the owner, and touched. -/
def Projectile.CanHit (players : UMap ℕ (Player D F)) (p : Projectile D) (k : ℕ) : Prop :=
  k ∈ players.keys ∧ (players.val k).alive = true ∧ k ≠ p.ownerId ∧
    checkCollisionCircle p.toCircle (players.val k).toCircle = true

/-- The entry of a client, the default one if there is none. -/
def entry (players : UMap ℕ (Player D F)) (k : ℕ) : Player D F :=
  if k ∈ players.keys then players.val k else Player.new 0

/-- Player `k` loses 10 health points, and stays alive. -/
structure Damaged (k : ℕ) (players players' : UMap ℕ (Player D F)) : Prop where
  keys : players'.keys = players.keys
  val : players'.val k = { players.val k with health := (players'.val k).health }
  health : (players'.val k).health.toNat + 10 = (players.val k).health.toNat
  pos : 0 < (players'.val k).health.toNat
  others : ∀ j, j ≠ k → players'.val j = players.val j

/-- Player `k` had at most 10 health points and dies, and the owner of the projectile has one more
kill. -/
structure Killed (owner k : ℕ) (players players' : UMap ℕ (Player D F)) : Prop where
  health : (players.val k).health.toNat ≤ 10
  keys : ∀ j, j ∈ players'.keys ↔ j = owner ∨ j ∈ players.keys
  victim : players'.val k =
    { players.val k with alive := false, deaths := (players.val k).deaths + 1 }
  kills : players'.val owner =
    { entry players owner with kills := (entry players owner).kills + 1 }
  others : ∀ j, j ≠ k → j ≠ owner → players'.val j = players.val j

/-- What came of a projectile: nobody was hurt, or it was erased and one player hurt who could be,
and it touched no wall and no obstacle. -/
inductive Examination.Accounted (m : GameMap D) (e : Examination D F) : Prop where
  | unhurt (h : e.after = e.before)
  | damaged (k : ℕ) (hremoved : e.removed = true) (hobject : e.projectile.hitsObject m = false)
      (hhit : e.projectile.CanHit e.before k) (h : Damaged k e.before e.after)
  | killed (k : ℕ) (hremoved : e.removed = true) (hobject : e.projectile.hitsObject m = false)
      (hhit : e.projectile.CanHit e.before k) (h : Killed e.projectile.ownerId k e.before e.after)

theorem canHit_of_hitPlayer {players : UMap ℕ (Player D F)} {p : Projectile D} {k : ℕ}
    (h : p.hitPlayer players = some k) : p.CanHit players k := by
  have hmem := List.mem_of_find?_eq_some h
  have hprop := List.find?_some h
  simp only [Bool.and_eq_true, bne_iff_ne] at hprop
  exact ⟨hmem, hprop.1.1, hprop.1.2, hprop.2⟩

/-- A hit of a player with more than 10 health points. -/
theorem damaged_damagePlayer {players : UMap ℕ (Player D F)} {owner k : ℕ} (ρ : Rehash ℕ)
    (hhealth : ¬ (players.val k).health ≤ Constants.projectileDamage) :
    Damaged k players (damagePlayer ρ players owner k) := by
  have hlt : 10 < (players.val k).health.toNat := by
    simpa [UInt8.le_iff_toNat_le, Constants.projectileDamage] using hhealth
  have hsub : ((players.val k).health - Constants.projectileDamage).toNat =
      (players.val k).health.toNat - 10 := by
    have hle : Constants.projectileDamage ≤ (players.val k).health :=
      UInt8.le_iff_toNat_le.mpr hlt.le
    rw [UInt8.toNat_sub_of_le _ _ hle]
    rfl
  unfold damagePlayer
  rw [if_neg hhealth]
  refine ⟨rfl, by simp, ?_, ?_, fun j hj => UMap.val_set_of_ne _ _ hj⟩
  · rw [UMap.val_set_self, hsub]
    omega
  · rw [UMap.val_set_self, hsub]
    omega

/-- A hit of a player with at most 10 health points. -/
theorem killed_damagePlayer {players : UMap ℕ (Player D F)} {owner k : ℕ} (ρ : Rehash ℕ)
    (hne : k ≠ owner)
    (hhealth : (players.val k).health ≤ Constants.projectileDamage) :
    Killed owner k players (damagePlayer ρ players owner k) := by
  unfold damagePlayer
  rw [if_pos hhealth]
  refine ⟨UInt8.le_iff_toNat_le.mp hhealth, fun j => ?_, ?_, ?_, fun j hjk hjo => ?_⟩
  · simp
  · simp [hne, UMap.val_index]
  · simp [entry, UMap.val_index, hne.symm]
  · simp [UMap.val_set, UMap.val_index, hjk, hjo]

/-- The player whom the projectile hurts. -/
def Projectile.hurts (m : GameMap D) (players : UMap ℕ (Player D F)) (p : Projectile D) :
    Option ℕ :=
  if p.hitsObject m then none else p.hitPlayer players

/-- What `checkProjectileCollisions` does. -/
theorem check_cases {ρ : Rehash ℕ} {m : GameMap D} {players players' : UMap ℕ (Player D F)}
    {p : Projectile D} {removed : Bool}
    (h : checkProjectileCollisions ρ m players p = some (removed, players')) :
    (p.hurts m players = none ∧ players' = players) ∨
    ∃ k, p.hurts m players = some k ∧ removed = true ∧ p.hitsObject m = false ∧
      p.CanHit players k ∧ (Damaged k players players' ∨ Killed p.ownerId k players players') := by
  unfold checkProjectileCollisions at h
  unfold Projectile.hurts
  split_ifs at h ⊢ with hobject
  · exact .inl ⟨rfl, (Prod.mk.inj (Option.some.inj h)).2.symm⟩
  · split at h
    · rename_i k hhit
      obtain ⟨rfl, rfl⟩ := Prod.mk.inj (Option.some.inj h)
      have hcan := canHit_of_hitPlayer hhit
      refine .inr ⟨k, hhit, rfl, by simpa using hobject, hcan, ?_⟩
      by_cases hhealth : (players.val k).health ≤ Constants.projectileDamage
      · exact .inr (killed_damagePlayer ρ hcan.2.2.1 hhealth)
      · exact .inl (damaged_damagePlayer ρ hhealth)
    · rename_i hnone
      obtain ⟨edges, -, he⟩ := Option.map_eq_some_iff.mp h
      exact .inl ⟨hnone, (Prod.mk.inj he).2.symm⟩

theorem accounted_of_check {ρ : Rehash ℕ} {m : GameMap D} {e : Examination D F}
    (h : checkProjectileCollisions ρ m e.before e.projectile = some (e.removed, e.after)) :
    e.Accounted m := by
  rcases check_cases h with ⟨-, hsame⟩ | ⟨k, -, hremoved, hobject, hcan, hdamaged | hkilled⟩
  · exact .unhurt hsame
  · exact .damaged k hremoved hobject hcan hdamaged
  · exact .killed k hremoved hobject hcan hkilled

/-! ## Counting -/

/-- The players who are alive before and not after. -/
def died (players players' : UMap ℕ (Player D F)) : List ℕ :=
  players.keys.filter fun k => (players.val k).alive && !(players'.val k).alive

/-- The players who die, one examination after the other. -/
def victims (examined : List (Examination D F)) : List ℕ :=
  examined.flatMap fun e => died e.before e.after

/-- The owners of the projectiles of which they die. -/
def killers (examined : List (Examination D F)) : List ℕ :=
  examined.flatMap fun e => (died e.before e.after).map fun _ => e.projectile.ownerId

theorem mem_died {players players' : UMap ℕ (Player D F)} {k : ℕ} : k ∈ died players players' ↔
    k ∈ players.keys ∧ (players.val k).alive = true ∧ (players'.val k).alive = false := by
  simp [died]

theorem died_of_alive_eq {players players' : UMap ℕ (Player D F)}
    (h : ∀ k, (players'.val k).alive = (players.val k).alive) : died players players' = [] := by
  unfold died
  rw [List.filter_eq_nil_iff]
  intro k _
  simp [h k]

theorem Damaged.died_eq {k : ℕ} {players players' : UMap ℕ (Player D F)}
    (h : Damaged k players players') : died players players' = [] := by
  refine died_of_alive_eq fun j => ?_
  by_cases hj : j = k
  · rw [hj, h.val]
  · rw [h.others j hj]

theorem Killed.died_eq {owner k : ℕ} {players players' : UMap ℕ (Player D F)}
    (h : Killed owner k players players') (hk : k ∈ players.keys)
    (halive : (players.val k).alive = true) (hne : k ≠ owner) : died players players' = [k] := by
  have hiff : ∀ j, j ∈ died players players' ↔ j = k := by
    intro j
    rw [mem_died]
    constructor
    · rintro ⟨hj, hbefore, hafter⟩
      by_contra hjk
      by_cases hjo : j = owner
      · rw [hjo, h.kills] at hafter
        rw [hjo] at hj hbefore
        simp [entry, hj, hbefore] at hafter
      · rw [h.others j hjk hjo, hbefore] at hafter
        exact absurd hafter (by decide)
    · rintro rfl
      exact ⟨hk, halive, by rw [h.victim]⟩
  have hnodup : (died players players').Nodup := players.nodup.filter _
  have hperm : (died players players').Perm [k] :=
    (List.perm_ext_iff_of_nodup hnodup (List.nodup_singleton k)).mpr fun j => by simp [hiff]
  exact List.perm_singleton.mp hperm

/-- A field of an entry is unchanged if the field of the value is. -/
theorem entry_congr {α : Type} (f : Player D F → α) {players players' : UMap ℕ (Player D F)} {k : ℕ}
    (hmem : k ∈ players'.keys ↔ k ∈ players.keys)
    (hval : f (players'.val k) = f (players.val k)) :
    f (entry players' k) = f (entry players k) := by
  unfold entry
  split_ifs with h h' h'
  · exact hval
  · exact absurd (hmem.mp h) h'
  · exact absurd (hmem.mpr h') h
  · rfl

/-- Of what a kill does to the victim and to the owner, `f` sees only the latter. -/
theorem Killed.entry_of_ne {α : Type} (f : Player D F → α) {owner k j : ℕ}
    {players players' : UMap ℕ (Player D F)} (h : Killed owner k players players')
    (hj : j ≠ owner) (hf : f (players'.val k) = f (players.val k)) :
    f (entry players' j) = f (entry players j) := by
  refine entry_congr f (by simp [h.keys, hj]) ?_
  by_cases hjk : j = k
  · rw [hjk, hf]
  · rw [h.others j hjk hj]

theorem Killed.entry_owner {owner k : ℕ} {players players' : UMap ℕ (Player D F)}
    (h : Killed owner k players players') :
    entry players' owner =
      { entry players owner with kills := (entry players owner).kills + 1 } := by
  rw [entry, if_pos ((h.keys owner).mpr (.inl rfl)), h.kills]

theorem Damaged.entry_congr {α : Type} (f : Player D F → α) {k : ℕ}
    {players players' : UMap ℕ (Player D F)} (h : Damaged k players players')
    (hf : f (players'.val k) = f (players.val k)) (j : ℕ) :
    f (entry players' j) = f (entry players j) := by
  refine PRShooter.entry_congr f (by rw [h.keys]) ?_
  by_cases hj : j = k
  · rw [hj, hf]
  · rw [h.others j hj]

/-- An examination adds the kills that it counts. -/
theorem kills_of_accounted {m : GameMap D} {e : Examination D F} (h : e.Accounted m) (k : ℕ) :
    (entry e.after k).kills = (entry e.before k).kills +
      UInt16.ofNat (((died e.before e.after).map fun _ => e.projectile.ownerId).count k) := by
  cases h with
  | unhurt h => rw [h, died_of_alive_eq fun _ => rfl]; simp
  | damaged j _ _ hhit h =>
    rw [h.entry_congr Player.kills (by rw [h.val]), h.died_eq]
    simp
  | killed j _ _ hhit h =>
    rw [h.died_eq hhit.1 hhit.2.1 hhit.2.2.1]
    by_cases hk : k = e.projectile.ownerId
    · rw [hk, h.entry_owner]
      simp
    · rw [h.entry_of_ne Player.kills hk (by rw [h.victim])]
      simp [Ne.symm hk]

/-- An examination adds the deaths that it counts. -/
theorem deaths_of_accounted {m : GameMap D} {e : Examination D F} (h : e.Accounted m) (k : ℕ) :
    (entry e.after k).deaths = (entry e.before k).deaths +
      UInt16.ofNat ((died e.before e.after).count k) := by
  cases h with
  | unhurt h => rw [h, died_of_alive_eq fun _ => rfl]; simp
  | damaged j _ _ hhit h =>
    rw [h.entry_congr Player.deaths (by rw [h.val]), h.died_eq]
    simp
  | killed j _ _ hhit h =>
    rw [h.died_eq hhit.1 hhit.2.1 hhit.2.2.1]
    by_cases hk : k = j
    · have hafter : entry e.after k = e.after.val k := if_pos ((h.keys k).mpr (.inr (hk ▸ hhit.1)))
      have hbefore : entry e.before k = e.before.val k := if_pos (hk ▸ hhit.1)
      rw [hafter, hbefore, hk, h.victim]
      simp
    · have hzero : ([j] : List ℕ).count k = 0 := by simp [Ne.symm hk]
      rw [hzero]
      by_cases hko : k = e.projectile.ownerId
      · rw [hko, h.entry_owner]
        simp
      · have hsame : (entry e.after k).deaths = (entry e.before k).deaths :=
          entry_congr Player.deaths (by simp [h.keys, hko]) (by rw [h.others k hk hko])
        rw [hsame]
        simp

/-- What every examination adds to a counter, the loop adds in sum. -/
theorem sum_of_linked (f : Player D F → UInt16) (c : Examination D F → ℕ) (k : ℕ)
    {examined : List (Examination D F)} {players players' : UMap ℕ (Player D F)}
    (hlinked : Linked players examined players')
    (hadd : ∀ e ∈ examined, f (entry e.after k) = f (entry e.before k) + UInt16.ofNat (c e)) :
    f (entry players' k) = f (entry players k) + UInt16.ofNat (examined.map c).sum := by
  induction examined generalizing players with
  | nil =>
    obtain rfl := hlinked
    simp
  | cons e es ih =>
    obtain ⟨rfl, hlinked⟩ := hlinked
    rw [ih hlinked fun d hd => hadd d (by simp [hd]), hadd e (by simp), List.map_cons,
      List.sum_cons, UInt16.ofNat_add, UInt16.add_assoc]

/-! ## Who dies -/

theorem mem_died_iff {players players' players'' : UMap ℕ (Player D F)}
    (h : OnlyHits players players') (h' : OnlyHits players' players'') {k : ℕ} :
    k ∈ died players players'' ↔ k ∈ died players players' ∨ k ∈ died players' players'' := by
  simp only [mem_died]
  constructor
  · rintro ⟨hk, hbefore, hafter⟩
    cases hmid : (players'.val k).alive with
    | true => exact .inr ⟨h.keys hk, rfl, hafter⟩
    | false => exact .inl ⟨hk, hbefore, rfl⟩
  · rintro (⟨hk, hbefore, hmid⟩ | ⟨hk, hmid, hafter⟩)
    · refine ⟨hk, hbefore, ?_⟩
      by_contra halive
      have hrevived := (h'.alive k (h'.keys (h.keys hk)) (by simpa using halive)).2
      rw [hmid] at hrevived
      exact absurd hrevived (by decide)
    · obtain ⟨hk', hbefore⟩ := h.alive k hk hmid
      exact ⟨hk', hbefore, hafter⟩

theorem onlyHits_of_linked {examined : List (Examination D F)}
    {players players' : UMap ℕ (Player D F)} (hlinked : Linked players examined players')
    (hhits : ∀ e ∈ examined, OnlyHits e.before e.after) : OnlyHits players players' := by
  induction examined generalizing players with
  | nil => exact hlinked ▸ .refl players
  | cons e es ih =>
    obtain ⟨rfl, hlinked⟩ := hlinked
    exact (hhits e (by simp)).trans (ih hlinked fun d hd => hhits d (by simp [hd]))

/-- Every player who dies does so in one of the examinations. -/
theorem mem_victims_iff {examined : List (Examination D F)}
    {players players' : UMap ℕ (Player D F)} (hlinked : Linked players examined players')
    (hhits : ∀ e ∈ examined, OnlyHits e.before e.after) {k : ℕ} :
    k ∈ victims examined ↔ k ∈ died players players' := by
  induction examined generalizing players with
  | nil =>
    obtain rfl := hlinked
    simp [victims, died_of_alive_eq]
  | cons e es ih =>
    obtain ⟨rfl, hlinked⟩ := hlinked
    have hrest := fun d hd => hhits d (List.mem_cons_of_mem e hd)
    rw [mem_died_iff (hhits e (by simp)) (onlyHits_of_linked hlinked hrest), ← ih hlinked hrest]
    simp [victims]

/-- No player dies in two examinations. -/
theorem nodup_victims {examined : List (Examination D F)}
    {players players' : UMap ℕ (Player D F)} (hlinked : Linked players examined players')
    (hhits : ∀ e ∈ examined, OnlyHits e.before e.after) : (victims examined).Nodup := by
  induction examined generalizing players with
  | nil => simp [victims]
  | cons e es ih =>
    obtain ⟨rfl, hlinked⟩ := hlinked
    have hrest := fun d hd => hhits d (List.mem_cons_of_mem e hd)
    refine List.nodup_append'.mpr ⟨e.before.nodup.filter _, ih hlinked hrest, ?_⟩
    intro k hfirst hsecond
    -- whoever dies later is still alive after the first examination
    have hdead := (mem_died.mp hfirst).2.2
    have halive := (mem_died.mp ((mem_victims_iff hlinked hrest).mp hsecond)).2.1
    rw [hdead] at halive
    exact absurd halive (by decide)

theorem ownerId_mem_keys {m : GameMap D} {e : Examination D F} (h : e.Accounted m)
    (hdied : died e.before e.after ≠ []) : e.projectile.ownerId ∈ e.after.keys := by
  cases h with
  | unhurt h => exact absurd (by rw [h, died_of_alive_eq fun _ => rfl]) hdied
  | damaged _ _ _ _ h => exact absurd h.died_eq hdied
  | killed _ _ _ _ h => exact (h.keys _).mpr (.inl rfl)

/-- The killers are in the map in the end. -/
theorem killers_subset {m : GameMap D} {examined : List (Examination D F)}
    {players players' : UMap ℕ (Player D F)} (hlinked : Linked players examined players')
    (hhits : ∀ e ∈ examined, OnlyHits e.before e.after)
    (haccounted : ∀ e ∈ examined, e.Accounted m) : killers examined ⊆ players'.keys := by
  induction examined generalizing players with
  | nil => simp [killers]
  | cons e es ih =>
    obtain ⟨rfl, hlinked⟩ := hlinked
    have hrest := fun d hd => hhits d (List.mem_cons_of_mem e hd)
    intro k hk
    unfold killers at hk
    rw [List.flatMap_cons, List.mem_append] at hk
    rcases hk with hk | hk
    · obtain ⟨j, hj, rfl⟩ := List.mem_map.mp hk
      exact (onlyHits_of_linked hlinked hrest).keys
        (ownerId_mem_keys (haccounted e (by simp)) (List.ne_nil_of_mem hj))
    · exact ih hlinked hrest (fun d hd => haccounted d (by simp [hd])) hk

theorem length_killers (examined : List (Examination D F)) :
    (killers examined).length = (victims examined).length := by
  simp [killers, victims, List.length_flatMap]

/-! ## The loops of a tick -/

/-- What the loop over the projectiles of a tick examines. -/
def examinations (ρ : Rehash ℕ) (g : Game D F) : Option (List (Examination D F)) := do
  let players ← checkPlayerCollisions g.gameMap (updatePositions g).players
  let (_, _, examined) ← eraseLoop ρ g.gameMap players (updatePositions g).projectiles 0
  return examined

/-- The two loops of a tick: the first moves the players, the second is a chain of examinations. -/
theorem examinations_of_tick {m : GameMap D} (hm : m.borders ≠ []) {ρ : Rehash ℕ} {g g' : Game D F}
    (hmap : g.gameMap = m) (h : tick ρ g = some g') :
    ∃ players examined, OnlyCentres g.players players ∧ g'.gameMap = m ∧
      Linked players examined g'.players ∧ examinations ρ g = some examined ∧
      ∀ e ∈ examined,
        checkProjectileCollisions ρ m e.before e.projectile = some (e.removed, e.after) := by
  obtain ⟨players, players', left, hplayers, hloop, rfl⟩ := tick_eq_some.mp h
  obtain ⟨players'', examined, herase, hsimple, -, hlinked, hchecks⟩ :=
    eraseLoop_eq hm ρ (g.projectiles.map Projectile.advance) players []
  rw [hmap] at hloop
  obtain ⟨rfl, -⟩ := Prod.mk.inj (Option.some.inj (hsimple.symm.trans hloop))
  refine ⟨players, examined, ?_, hmap, hlinked, ?_, hchecks⟩
  · exact (onlyCentres_updatePositions g).trans (onlyCentres_checkPlayerCollisions hplayers)
  · have herase' : eraseLoop ρ m players (updatePositions g).projectiles 0 =
        some (players'', survivors examined, examined) := herase
    unfold examinations
    rw [hplayers, hmap]
    simp [herase']

/-! ## Ten shots -/

theorem check_of_hurts {ρ : Rehash ℕ} {m : GameMap D} {players : UMap ℕ (Player D F)}
    {p : Projectile D} {k : ℕ} (h : p.hurts m players = some k) :
    checkProjectileCollisions ρ m players p = some (true, damagePlayer ρ players p.ownerId k) := by
  unfold Projectile.hurts at h
  split_ifs at h with hobject
  unfold checkProjectileCollisions
  rw [if_neg hobject, h]

/-- Projectiles that hurt the same player one after the other. -/
theorem eraseLoop_replicate {ρ : Rehash ℕ} {m : GameMap D} {p : Projectile D} {k : ℕ} (n : ℕ) :
    ∀ {players : UMap ℕ (Player D F)},
      (∀ i < n, p.hurts m ((damagePlayer ρ · p.ownerId k)^[i] players) = some k) →
      eraseLoop ρ m players (List.replicate n p) 0 =
        some ((damagePlayer ρ · p.ownerId k)^[n] players, [], (List.range n).map fun i =>
          ⟨p, (damagePlayer ρ · p.ownerId k)^[i] players, true,
            (damagePlayer ρ · p.ownerId k)^[i + 1] players⟩) := by
  induction n with
  | zero =>
    intro players _
    unfold eraseLoop
    rw [dif_neg (by simp)]
    rfl
  | succ n ih =>
    intro players h
    have hfirst := check_of_hurts (ρ := ρ) (h 0 n.succ_pos)
    have hrest := ih fun i hi => h (i + 1) (Nat.succ_lt_succ hi)
    unfold eraseLoop
    rw [dif_pos (by simp)]
    simp only [List.getElem_replicate, Function.iterate_zero, id] at hfirst ⊢
    simp only [hfirst, if_true, List.replicate_succ, List.eraseIdx_zero, List.tail_cons]
    rw [hrest, List.range_succ_eq_map]
    simp [Function.comp_def]

/-- Players 0 and 1 have spawned on the square, 62 apart, and player 0 has fired ten times. -/
noncomputable def tenShots : Game ℝ ℝ :=
  { pair (0, 0) (62, 0) with
    projectiles := List.replicate 10 ((newlySpawned 0 (0, 0)).projectile 0) }

/-- The projectile of each shot after its first step. -/
noncomputable def flyingShot : Projectile ℝ := ((newlySpawned 0 (0, 0)).projectile 0).advance

/-- The players when the first `n` of the projectiles have been examined. -/
noncomputable def afterHits (n : ℕ) : UMap ℕ (Player ℝ ℝ) :=
  (damagePlayer Rehash.front · flyingShot.ownerId 1)^[n] (updatePositions tenShots).players

theorem projectiles_tenShots :
    (updatePositions tenShots).projectiles = List.replicate 10 flyingShot := by
  simp [updatePositions, tenShots, flyingShot]

/-- Nobody is near enough to anything in the player loop. -/
theorem checkPlayerCollisions_tenShots :
    checkPlayerCollisions squareMap (updatePositions tenShots).players
      = some (updatePositions tenShots).players := by
  have hzero : ((updatePositions tenShots).players.val 0).toCircle = ⟨⟨0, 0⟩, 30⟩ :=
    (advance_circle_newlySpawned 0 (0, 0)).trans (by norm_num [drawnPoint])
  have hone : ((updatePositions tenShots).players.val 1).toCircle = ⟨⟨62, 0⟩, 30⟩ :=
    (advance_circle_newlySpawned 1 (62, 0)).trans (by norm_num [drawnPoint])
  have hkeys : ∀ k ∈ (updatePositions tenShots).players.keys, k = 1 ∨ k = 0 := fun k hk => by
    simpa using (show k ∈ [1, 0] from hk)
  refine checkPlayerCollisions_of_apart (fun k hk j hj hjk => ?_) fun k hk =>
    collideMap_squareMap ?_
  · rw [← Bool.not_eq_true, checkCollisionCircle_iff, distance_sq]
    rcases hkeys k hk with rfl | rfl <;> rcases hkeys j hj with rfl | rfl
    · exact absurd rfl hjk
    · rw [hzero, hone]
      norm_num
    · rw [hzero, hone]
      norm_num
    · exact absurd rfl hjk
  · unfold FarFromSquare
    rcases hkeys k hk with rfl | rfl
    · rw [hone]
      norm_num
    · rw [hzero]
      norm_num

/-- The first nine hits take 10 health points each. -/
theorem val_afterHits {n : ℕ} (hn : n ≤ 9) : (afterHits n).keys = [1, 0] ∧
    (afterHits n).val 0 = newlySpawned 0 (0, 0) ∧
    (afterHits n).val 1 = { newlySpawned 1 (62, 0) with health := UInt8.ofNat (100 - 10 * n) } := by
  induction n with
  | zero =>
    exact ⟨rfl, player_advance_newlySpawned 0 (0, 0), player_advance_newlySpawned 1 (62, 0)⟩
  | succ n ih =>
    obtain ⟨hkeys, hzero, hone⟩ := ih (by omega)
    have hhealth : ((afterHits n).val 1).health = UInt8.ofNat (100 - 10 * n) := by rw [hone]
    have hsurvives : ∀ i < 9, ¬ UInt8.ofNat (100 - 10 * i) ≤ Constants.projectileDamage ∧
        UInt8.ofNat (100 - 10 * i) - Constants.projectileDamage
          = UInt8.ofNat (100 - 10 * (i + 1)) := by decide
    obtain ⟨hmore, hleft⟩ := hsurvives n (by omega)
    have hstep : afterHits (n + 1) = (afterHits n).set 1
        { (afterHits n).val 1 with
          health := ((afterHits n).val 1).health - Constants.projectileDamage } := by
      rw [afterHits, Function.iterate_succ_apply']
      exact if_neg (hhealth ▸ hmore)
    rw [hstep]
    refine ⟨hkeys, ?_, ?_⟩
    · rw [UMap.val_set_of_ne _ _ (by decide), hzero]
    · rw [UMap.val_set_self, hhealth, hleft, hone]

/-- The tenth hit kills. -/
theorem killed_afterHits : Killed 0 1 (afterHits 9) (afterHits 10) := by
  have hlast : afterHits 10 = damagePlayer Rehash.front (afterHits 9) 0 1 :=
    Function.iterate_succ_apply' _ 9 _
  rw [hlast]
  refine killed_damagePlayer _ (by decide) ?_
  rw [(val_afterHits le_rfl).2.2]
  decide

theorem alive_afterHits {n : ℕ} (hn : n ≤ 9) : ((afterHits n).val 1).alive = true := by
  rw [(val_afterHits hn).2.2]
  rfl

/-- Of the ten projectiles the last one leaves player 1 dead. -/
theorem alive_afterHits_succ {i : ℕ} (hi : i < 10) :
    ((afterHits (i + 1)).val 1).alive = !decide (i = 9) := by
  by_cases hlast : i = 9
  · rw [hlast, killed_afterHits.victim]
    rfl
  · rw [alive_afterHits (by omega)]
    simp [hlast]

/-- Every projectile finds player 1. -/
theorem hurts_flyingShot {n : ℕ} (hn : n ≤ 9) :
    flyingShot.hurts squareMap (afterHits n) = some 1 := by
  obtain ⟨hkeys, -, hone⟩ := val_afterHits hn
  have hcircle : ((afterHits n).val 1).toCircle = ⟨⟨62, 0⟩, 30⟩ := by
    rw [hone]
    exact (circle_newlySpawned 1 (62, 0)).trans (by norm_num [drawnPoint])
  have htouched : checkCollisionCircle flyingShot.toCircle ((afterHits n).val 1).toCircle = true := by
    rw [hcircle, flyingShot, advance_newlySpawned, checkCollisionCircle_iff, distance_sq]
    norm_num
  have howner : flyingShot.ownerId = 0 := rfl
  have hobject : flyingShot.hitsObject squareMap = false := rfl
  simp [Projectile.hurts, Projectile.hitPlayer, hobject, hkeys, alive_afterHits hn, howner,
    htouched]

/-- What the ten projectiles find. -/
noncomputable def tenExaminations : List (Examination ℝ ℝ) :=
  (List.range 10).map fun i => ⟨flyingShot, afterHits i, true, afterHits (i + 1)⟩

theorem eraseLoop_tenShots :
    eraseLoop Rehash.front squareMap (updatePositions tenShots).players
      (updatePositions tenShots).projectiles 0 = some (afterHits 10, [], tenExaminations) := by
  rw [projectiles_tenShots]
  exact eraseLoop_replicate 10 fun i hi => hurts_flyingShot (by omega)

theorem examinations_tenShots :
    examinations Rehash.front tenShots = some tenExaminations := by
  have hplayers := checkPlayerCollisions_tenShots
  have hloop := eraseLoop_tenShots
  unfold examinations
  rw [show tenShots.gameMap = squareMap from rfl, hplayers, Option.bind_eq_bind, Option.bind_some,
    hloop]
  rfl

theorem tick_tenShots : ∃ g, tick Rehash.front tenShots = some g ∧ g.players = afterHits 10 := by
  obtain ⟨players', examined, herase, hloop, -⟩ := eraseLoop_eq convexBorder_squareMap.1
    Rehash.front (updatePositions tenShots).projectiles (updatePositions tenShots).players []
  have hend := eraseLoop_tenShots.symm.trans herase
  obtain ⟨rfl, -⟩ := Prod.mk.inj (Option.some.inj hend)
  exact ⟨_, tick_eq_some.mpr ⟨_, _, _, checkPlayerCollisions_tenShots, hloop, rfl⟩, rfl⟩

theorem died_tenShots : died (updatePositions tenShots).players (afterHits 10) = [1] := by
  have hkilled := killed_afterHits
  have hvictim : ((afterHits 10).val 1).alive = false := by rw [hkilled.victim]
  have howner : ((afterHits 10).val 0).alive = true := by
    rw [hkilled.kills]
    simp [entry, (val_afterHits le_rfl).1, (val_afterHits le_rfl).2.1, newlySpawned]
  have halive : ((updatePositions tenShots).players.val 1).alive = true := rfl
  show [1, 0].filter _ = _
  simp [hvictim, howner, halive]

/-! ## The accounts of a loop -/

/-- The accounts of a pass over the projectiles that ends with `players'` and `left`. -/
structure CombatAccounts (m : GameMap D) (players : UMap ℕ (Player D F))
    (projectiles : List (Projectile D)) (players' : UMap ℕ (Player D F))
    (left : List (Projectile D)) (examined : List (Examination D F)) : Prop where
  /-- Each projectile is examined once, in order, on the players the one before has left. -/
  examined_once : examined.map Examination.projectile = projectiles
  linked : Linked players examined players'
  survivors_left : left = survivors examined
  accounted : ∀ e ∈ examined, e.Accounted m
  /-- The counters go up by the number of kills and deaths, modulo `2 ^ 16`. -/
  kills : ∀ k, (entry players' k).kills =
    (entry players k).kills + UInt16.ofNat ((killers examined).count k)
  deaths : ∀ k, (entry players' k).deaths =
    (entry players k).deaths + UInt16.ofNat ((victims examined).count k)
  /-- Nobody dies twice, and those who die are those who are dead in the end. -/
  died_once : (victims examined).Nodup
  died_perm : (victims examined).Perm (died players players')
  kills_sum : ∑ k ∈ players'.keys.toFinset, (killers examined).count k =
    (died players players').length
  deaths_sum : ∑ k ∈ players'.keys.toFinset, (victims examined).count k =
    (died players players').length

theorem sum_count {keys : List ℕ} {l : List ℕ} (h : l ⊆ keys) :
    ∑ k ∈ keys.toFinset, l.count k = l.length := by
  have hsum := Multiset.sum_count_eq_card (s := keys.toFinset) (m := (l : Multiset ℕ))
    fun a ha => List.mem_toFinset.mpr (h ha)
  simpa only [Multiset.coe_count, Multiset.coe_card] using hsum

/-- **Combat.** On a map whose border has a point the loop over the projectiles comes to an end, as
the recursive loop does, and its accounts balance. -/
theorem combatAccounts_of_eraseLoop {m : GameMap D} (hm : m.borders ≠ []) (ρ : Rehash ℕ)
    (players : UMap ℕ (Player D F)) (projectiles : List (Projectile D)) :
    ∃ players' left examined,
      eraseLoop ρ m players projectiles 0 = some (players', left, examined) ∧
      projectileLoop ρ m players projectiles = some (players', left) ∧
      CombatAccounts m players projectiles players' left examined := by
  obtain ⟨players', examined, hloop, hsimple, hprojectiles, hlinked, hchecks⟩ :=
    eraseLoop_eq hm ρ projectiles players []
  have hhits : ∀ e ∈ examined, OnlyHits e.before e.after := fun e he =>
    onlyHits_checkProjectileCollisions (hchecks e he)
  have haccounted : ∀ e ∈ examined, e.Accounted m := fun e he => accounted_of_check (hchecks e he)
  have hperm : (victims examined).Perm (died players players') :=
    (List.perm_ext_iff_of_nodup (nodup_victims hlinked hhits) (players.nodup.filter _)).mpr
      fun k => mem_victims_iff hlinked hhits
  have hvictims : victims examined ⊆ players'.keys := fun k hk =>
    (onlyHits_of_linked hlinked hhits).keys (mem_died.mp (hperm.mem_iff.mp hk)).1
  refine ⟨players', survivors examined, examined, by simpa using hloop, hsimple, ?_⟩
  exact {
    examined_once := hprojectiles
    linked := hlinked
    survivors_left := rfl
    accounted := haccounted
    kills := fun k => by
      unfold killers
      rw [List.count_flatMap]
      exact sum_of_linked Player.kills _ k hlinked fun e he =>
        kills_of_accounted (haccounted e he) k
    deaths := fun k => by
      unfold victims
      rw [List.count_flatMap]
      exact sum_of_linked Player.deaths _ k hlinked fun e he =>
        deaths_of_accounted (haccounted e he) k
    died_once := nodup_victims hlinked hhits
    died_perm := hperm
    kills_sum := by
      rw [sum_count (killers_subset hlinked hhits haccounted), length_killers, hperm.length_eq]
    deaths_sum := by rw [sum_count hvictims, hperm.length_eq] }

/-- The events that lead there, and the tick of the ten hits. -/
noncomputable def barrage : List (GameEvent ℝ ℝ) :=
  [.connect Rehash.front 0, .connect Rehash.front 1] ++ [.spawn Rehash.front 0 (0, 0)]
    ++ [.spawn Rehash.front 1 (62, 0)] ++ List.replicate 10 (.shoot Rehash.front 0)
    ++ [.tick Rehash.front]

/-- Ten projectiles in one pass: nine hits and a kill. -/
theorem combatAccounts_of_eraseLoop_tenShots : ∃ players' left examined,
    CombatAccounts squareMap (updatePositions tenShots).players
      (updatePositions tenShots).projectiles players' left examined ∧
    left = [] ∧
    examined.map (fun e => (e.after.val 1).health) = [90, 80, 70, 60, 50, 40, 30, 20, 10, 10] ∧
    victims examined = [1] ∧ (entry players' 1).deaths = 1 ∧ killers examined = [0] ∧
    (entry players' 0).kills = 1 := by
  obtain ⟨players', left, examined, hloop, -, haccounts⟩ := combatAccounts_of_eraseLoop
    convexBorder_squareMap.1 Rehash.front (updatePositions tenShots).players
    (updatePositions tenShots).projectiles
  rw [eraseLoop_tenShots] at hloop
  obtain ⟨rfl, rest⟩ := Prod.mk.inj (Option.some.inj hloop)
  obtain ⟨rfl, rfl⟩ := Prod.mk.inj rest
  have hvictims : victims tenExaminations = [1] :=
    List.perm_singleton.mp (died_tenShots ▸ haccounts.died_perm)
  have hkillers : killers tenExaminations = [0] := by
    have hlength : (killers tenExaminations).length = 1 := by
      rw [length_killers, hvictims]
      rfl
    refine List.eq_replicate_iff.mpr ⟨hlength, fun k hk => ?_⟩
    obtain ⟨e, he, hk⟩ := List.mem_flatMap.mp hk
    obtain ⟨i, -, rfl⟩ := List.mem_map.mp he
    obtain ⟨j, -, rfl⟩ := List.mem_map.mp hk
    rfl
  refine ⟨_, _, _, haccounts, rfl, ?_, hvictims, ?_, hkillers, ?_⟩
  · have hhealth : ∀ i ∈ List.range 10,
        ((afterHits (i + 1)).val 1).health = UInt8.ofNat (100 - 10 * min (i + 1) 9) := by
      intro i hi
      have hlt := List.mem_range.mp hi
      by_cases hlast : i = 9
      · rw [hlast, killed_afterHits.victim, (val_afterHits le_rfl).2.2]
        rfl
      · rw [(val_afterHits (show i + 1 ≤ 9 by omega)).2.2, min_eq_left (by omega)]
    rw [tenExaminations, List.map_map]
    exact (List.map_congr_left hhealth).trans (by decide)
  · rw [haccounts.deaths, hvictims]
    rfl
  · rw [haccounts.kills, hkillers]
    rfl

end PRShooter
