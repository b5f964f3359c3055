import PRShooter.MapText

/-!
# The rectangle around the border

The corners `getMap` computes, and the places `spawnPlayer` draws between them. The search for the
largest coordinates starts at `std::numeric_limits<double>::min()`, the smallest positive number, so
the rectangle fits the border only if it reaches that far (`boundingBox_iff`). The bounds of the
drawing are truncated toward zero, which for a corner with a positive fraction at the top or on the
left is out of the rectangle (`spawnsInRectangle_iff`).
-/

namespace PRShooter

/-! ## Numbers in map files -/

/-- The value can be converted to an `int`. -/
def IntRange (x : ℝ) : Prop := ((-2147483648 : ℤ) : ℝ) ≤ x ∧ x ≤ ((2147483647 : ℤ) : ℝ)

theorem numericLimits_min_pos : (0 : ℝ) < NumericLimits.min := by
  show (0 : ℝ) < ((2 : ℕ) : ℝ) ^ (-1022 : ℤ)
  positivity

theorem le_numericLimits_max {x : ℝ} (h : IntRange x) : x ≤ NumericLimits.max := by
  refine h.2.trans ?_
  show _ ≤ (((2 : ℕ) : ℝ) - ((2 : ℕ) : ℝ) ^ (-52 : ℤ)) * ((2 : ℕ) : ℝ) ^ 1023
  have hfraction : (1 : ℝ) ≤ ((2 : ℕ) : ℝ) - ((2 : ℕ) : ℝ) ^ (-52 : ℤ) := by norm_num
  have hpower : ((2147483647 : ℤ) : ℝ) ≤ ((2 : ℕ) : ℝ) ^ 1023 := by
    have hint : ((2147483647 : ℤ) : ℝ) ≤ ((2 : ℕ) : ℝ) ^ 31 := by norm_num
    exact hint.trans (pow_le_pow_right₀ (by norm_num) (by norm_num))
  exact hpower.trans (le_mul_of_one_le_left (by positivity) hfraction)

theorem numericLimits_min_le_one : NumericLimits.min ≤ (1 : ℝ) := by
  show ((2 : ℕ) : ℝ) ^ (-1022 : ℤ) ≤ 1
  exact zpow_le_one_of_nonpos₀ (by norm_num) (by norm_num)

/-- `std::stod` on the numbers written with decimal digits and at most one point. -/
noncomputable def stodUnsigned (text : List Char) : Option ℝ :=
  match Delimited.pieces '.' text with
  | [whole] => stodDigits whole
  | [whole, fraction] =>
    (stodDigits whole).bind fun w =>
      (stodDigits fraction).map fun f => w + f / ((10 : ℕ) : ℝ) ^ fraction.length
  | _ => none

/-- `std::stod` on these numbers, with or without a minus sign. -/
noncomputable def stodDecimal (text : List Char) : Option ℝ :=
  if text.head? = some '-' then (stodUnsigned text.tail).map Neg.neg else stodUnsigned text

/-- A file that is one border line. -/
theorem getMap_border {points : List (Point ℝ)} {text : List Char}
    (hline : '\n' ∉ text) (hne : text ≠ [])
    (hspells : (MapLine.border points).Spells stodDecimal text) :
    ∃ m, getMap stodDecimal (fun _ => some text) "map1" GameMap.empty = some m ∧
      m.borders = points := by
  have hmap : SpellsMap stodDecimal [MapLine.border points] text :=
    ⟨[text], .last hne hline, .cons hspells .nil⟩
  obtain ⟨m, hload, -, -, hborders⟩ :=
    @getMap_of_spells ℝ stodDecimal _ _ _ _ _ text hmap (fun _ => some text) "map1" rfl
  refine ⟨m, hload, hborders.trans ?_⟩
  simp [MapLine.borders]

/-! ## The corners -/

section Corners

variable {D : Type} [LinearOrder D]

theorem stdMin_eq (a b : D) : stdMin a b = min a b := by
  rw [min_comm, min_def_lt]
  rfl

theorem stdMax_eq (a b : D) : stdMax a b = max a b := by
  rw [max_def_lt]
  rfl

theorem foldl_stdMin (ps : List (Point D)) (corner : Point D) :
    ps.foldl (fun corner point => ⟨stdMin corner.x point.x, stdMin corner.y point.y⟩) corner
      = ⟨(ps.map Point.x).foldl min corner.x, (ps.map Point.y).foldl min corner.y⟩ := by
  induction ps generalizing corner with
  | nil => rfl
  | cons p ps ih => rw [List.foldl_cons, ih, stdMin_eq, stdMin_eq]; rfl

theorem foldl_stdMax (ps : List (Point D)) (corner : Point D) :
    ps.foldl (fun corner point => ⟨stdMax corner.x point.x, stdMax corner.y point.y⟩) corner
      = ⟨(ps.map Point.x).foldl max corner.x, (ps.map Point.y).foldl max corner.y⟩ := by
  induction ps generalizing corner with
  | nil => rfl
  | cons p ps ih => rw [List.foldl_cons, ih, stdMax_eq, stdMax_eq]; rfl

/-- A value that starts as `a` and ends as the least of a list: it is one of the list if and only if
`a` was not below all of them. -/
theorem mem_foldl_min_iff {xs : List D} (hne : xs ≠ []) (a : D) :
    xs.foldl min a ∈ xs ↔ ∃ x ∈ xs, x ≤ a := by
  rw [List.foldl_min_eq_min hne]
  constructor
  · intro h
    exact ⟨_, h, min_le_left _ _⟩
  · rintro ⟨x, hx, hxa⟩
    rw [min_eq_right ((List.min_le_of_mem hx).trans hxa)]
    exact List.min_mem hne

theorem mem_foldl_max_iff {xs : List D} (hne : xs ≠ []) (a : D) :
    xs.foldl max a ∈ xs ↔ ∃ x ∈ xs, a ≤ x := by
  rw [List.foldl_max_eq_max hne]
  constructor
  · intro h
    exact ⟨_, h, le_max_left _ _⟩
  · rintro ⟨x, hx, hax⟩
    rw [max_eq_right (hax.trans (List.le_max_of_mem hx))]
    exact List.max_mem hne

theorem foldl_min_le {xs : List D} {x : D} (hx : x ∈ xs) (a : D) : xs.foldl min a ≤ x := by
  rw [List.foldl_min_eq_min (List.ne_nil_of_mem hx)]
  exact (min_le_right _ _).trans (List.min_le_of_mem hx)

theorem le_foldl_max {xs : List D} {x : D} (hx : x ∈ xs) (a : D) : x ≤ xs.foldl max a := by
  rw [List.foldl_max_eq_max (List.ne_nil_of_mem hx)]
  exact (List.le_max_of_mem hx).trans (le_max_right _ _)

namespace GameMap

variable (m : GameMap D)

/-- The point is in the rectangle of the map. -/
def InRectangle (p : Point D) : Prop :=
  (m.topLeft.x ≤ p.x ∧ p.x ≤ m.bottomRight.x) ∧ m.topLeft.y ≤ p.y ∧ p.y ≤ m.bottomRight.y

/-- The rectangle of the map contains the border, and each of its sides passes through a border
point. -/
structure BoundingBox : Prop where
  contains : ∀ p ∈ m.borders, m.InRectangle p
  left : ∃ p ∈ m.borders, p.x = m.topLeft.x
  top : ∃ p ∈ m.borders, p.y = m.topLeft.y
  right : ∃ p ∈ m.borders, p.x = m.bottomRight.x
  bottom : ∃ p ∈ m.borders, p.y = m.bottomRight.y

variable {m}

/-- Such a rectangle is inside every other one that contains the border. -/
theorem BoundingBox.smallest (h : m.BoundingBox) {lo hi : Point D}
    (hbox : ∀ p ∈ m.borders, (lo.x ≤ p.x ∧ p.x ≤ hi.x) ∧ lo.y ≤ p.y ∧ p.y ≤ hi.y) :
    (lo.x ≤ m.topLeft.x ∧ m.bottomRight.x ≤ hi.x) ∧
      lo.y ≤ m.topLeft.y ∧ m.bottomRight.y ≤ hi.y := by
  obtain ⟨pl, hpl, hleft⟩ := h.left
  obtain ⟨pt, hpt, htop⟩ := h.top
  obtain ⟨pr, hpr, hright⟩ := h.right
  obtain ⟨pb, hpb, hbottom⟩ := h.bottom
  exact ⟨⟨hleft ▸ (hbox pl hpl).1.1, hright ▸ (hbox pr hpr).1.2⟩,
    htop ▸ (hbox pt hpt).2.1, hbottom ▸ (hbox pb hpb).2.2⟩

variable [NumericLimits D]

theorem setCorners_topLeft (m : GameMap D) : m.setCorners.topLeft =
    ⟨(m.borders.map Point.x).foldl min NumericLimits.max,
      (m.borders.map Point.y).foldl min NumericLimits.max⟩ := foldl_stdMin _ _

theorem setCorners_bottomRight (m : GameMap D) : m.setCorners.bottomRight =
    ⟨(m.borders.map Point.x).foldl max NumericLimits.min,
      (m.borders.map Point.y).foldl max NumericLimits.min⟩ := foldl_stdMax _ _

/-- The rectangle contains the border whatever the search starts at. -/
theorem inRectangle_setCorners : ∀ p ∈ m.borders, m.setCorners.InRectangle p := by
  intro p hp
  have hx : p.x ∈ m.borders.map Point.x := List.mem_map_of_mem hp
  have hy : p.y ∈ m.borders.map Point.y := List.mem_map_of_mem hp
  unfold InRectangle
  rw [setCorners_topLeft, setCorners_bottomRight]
  exact ⟨⟨foldl_min_le hx _, le_foldl_max hx _⟩, foldl_min_le hy _, le_foldl_max hy _⟩

theorem boundingBox_setCorners_iff (hne : m.borders ≠ []) :
    m.setCorners.BoundingBox ↔
      ((∃ p ∈ m.borders, p.x ≤ NumericLimits.max) ∧ ∃ p ∈ m.borders, p.y ≤ NumericLimits.max) ∧
        (∃ p ∈ m.borders, NumericLimits.min ≤ p.x) ∧ ∃ p ∈ m.borders, NumericLimits.min ≤ p.y := by
  have hxs : m.borders.map Point.x ≠ [] := fun h => hne (List.map_eq_nil_iff.mp h)
  have hys : m.borders.map Point.y ≠ [] := fun h => hne (List.map_eq_nil_iff.mp h)
  -- each side is one fold, which is a coordinate of the border or its start
  have hleft := mem_foldl_min_iff hxs NumericLimits.max
  have htop := mem_foldl_min_iff hys NumericLimits.max
  have hright := mem_foldl_max_iff hxs NumericLimits.min
  have hbottom := mem_foldl_max_iff hys NumericLimits.min
  simp only [List.mem_map, exists_exists_and_eq_and] at hleft htop hright hbottom
  rw [← hleft, ← htop, ← hright, ← hbottom]
  constructor
  · intro h
    have hl := h.left
    have ht := h.top
    have hr := h.right
    have hb := h.bottom
    rw [setCorners_topLeft] at hl ht
    rw [setCorners_bottomRight] at hr hb
    exact ⟨⟨hl, ht⟩, hr, hb⟩
  · rintro ⟨⟨hl, ht⟩, hr, hb⟩
    refine ⟨inRectangle_setCorners, ?_, ?_, ?_, ?_⟩
    · rw [setCorners_topLeft]
      exact hl
    · rw [setCorners_topLeft]
      exact ht
    · rw [setCorners_bottomRight]
      exact hr
    · rw [setCorners_bottomRight]
      exact hb

end GameMap

variable [NumericLimits D] [Zero D]

/-- A map with a border has been read of a file, and has the corners of its border. -/
theorem eq_setCorners_of_getMap {stod : List Char → Option D}
    {files : String → Option (List Char)} {mapName : String} {m : GameMap D}
    (h : getMap stod files mapName GameMap.empty = some m) (hne : m.borders ≠ []) :
    m = m.setCorners := by
  unfold getMap at h
  split at h
  · obtain rfl := Option.some.inj h
    exact absurd rfl hne
  · obtain ⟨m', -, rfl⟩ := Option.map_eq_some_iff.mp h
    rfl

/-- **The bounding box.** The rectangle of a map with a border is the smallest one around the border
if and only if the starts of the search are not beyond all its points: some coordinate of each axis
is at most the largest number, and some is at least the smallest positive one. -/
theorem boundingBox_iff {stod : List Char → Option D} {files : String → Option (List Char)}
    {mapName : String} {m : GameMap D} (h : getMap stod files mapName GameMap.empty = some m)
    (hne : m.borders ≠ []) :
    m.BoundingBox ↔
      ((∃ p ∈ m.borders, p.x ≤ NumericLimits.max) ∧ ∃ p ∈ m.borders, p.y ≤ NumericLimits.max) ∧
        (∃ p ∈ m.borders, NumericLimits.min ≤ p.x) ∧ ∃ p ∈ m.borders, NumericLimits.min ≤ p.y := by
  have hcorners := GameMap.boundingBox_setCorners_iff hne
  rwa [← eq_setCorners_of_getMap h hne] at hcorners

end Corners

theorem boundingBox_sample : ∃ m, getMap stodDigits sampleFiles "map1" GameMap.empty = some m ∧
    m.BoundingBox := by
  have hfile : (sampleFiles ("../Maps/" ++ "map1") <|> sampleFiles ("Maps/" ++ "map1"))
      = some sampleMapText := by decide
  obtain ⟨m, hload, -, -, hborders⟩ := getMap_of_spells spellsMap_sample hfile
  have hne : m.borders ≠ [] := by
    rw [hborders]
    exact List.cons_ne_nil _ _
  refine ⟨m, hload, (boundingBox_iff hload hne).mpr ?_⟩
  -- the point (50, 50) is between the starts of all four searches
  have hp : (⟨((50 : ℕ) : ℝ), ((50 : ℕ) : ℝ)⟩ : Point ℝ) ∈ m.borders := by
    rw [hborders]
    simp [sampleMapLines, MapLine.borders]
  have hmax : ((50 : ℕ) : ℝ) ≤ NumericLimits.max :=
    le_numericLimits_max ⟨by norm_num, by norm_num⟩
  have hmin : NumericLimits.min ≤ ((50 : ℕ) : ℝ) := numericLimits_min_le_one.trans (by norm_num)
  exact ⟨⟨⟨_, hp, hmax⟩, _, hp, hmax⟩, ⟨_, hp, hmin⟩, _, hp, hmin⟩

/-- A border with negative coordinates only. -/
def negativeBorder : List Char := "B,-5,-5,-3,-5,-3,-2".toList

theorem spells_negativeBorder : (MapLine.border
    [⟨-((5 : ℕ) : ℝ), -((5 : ℕ) : ℝ)⟩, ⟨-((3 : ℕ) : ℝ), -((5 : ℕ) : ℝ)⟩,
      ⟨-((3 : ℕ) : ℝ), -((2 : ℕ) : ℝ)⟩]).Spells stodDecimal negativeBorder :=
  ⟨[], ["-5", "-5", "-3", "-5", "-3", "-2"].map String.toList, Delimited.pieces_eq_iff.mp rfl, rfl⟩

/-- The rectangle of a border with negative coordinates reaches beyond the origin. -/
theorem negativeBorder_not_boundingBox :
    ∃ m, getMap stodDecimal (fun _ => some negativeBorder) "map1" GameMap.empty = some m ∧
      m.borders ≠ [] ∧ ¬ m.BoundingBox := by
  obtain ⟨m, hload, hborders⟩ := getMap_border (by decide) (by decide) spells_negativeBorder
  have hne : m.borders ≠ [] := by
    rw [hborders]
    exact List.cons_ne_nil _ _
  refine ⟨m, hload, hne, fun hbox => ?_⟩
  obtain ⟨p, hp, hright⟩ := hbox.right
  -- the right side is right of the origin, and every border point is left of it
  have hpositive : 0 < m.bottomRight.x := by
    rw [eq_setCorners_of_getMap hload hne, GameMap.setCorners_bottomRight,
      List.foldl_max_eq_max fun h => hne (List.map_eq_nil_iff.mp h)]
    exact numericLimits_min_pos.trans_le (le_max_left _ _)
  rw [← hright] at hpositive
  rw [hborders] at hp
  simp only [List.mem_cons, List.not_mem_nil, or_false] at hp
  rcases hp with rfl | rfl | rfl <;> norm_num at hpositive

/-! ## Spawning -/

section Spawning

/-- Truncation toward zero does not leave the rectangle to the left or at the top. -/
def RoundsInwards (x : ℝ) : Prop := x ≤ 0 ∨ ∃ n : ℤ, x = n

theorem toInt_le {x : ℝ} (h : 0 ≤ x) : ((toInt x : ℤ) : ℝ) ≤ x := by
  show ((if 0 ≤ x then ⌊x⌋ else ⌈x⌉ : ℤ) : ℝ) ≤ x
  rw [if_pos h]
  exact Int.floor_le x

theorem toInt_mono : Monotone (toInt : ℝ → ℤ) := by
  intro x y hxy
  show (if 0 ≤ x then ⌊x⌋ else ⌈x⌉) ≤ if 0 ≤ y then ⌊y⌋ else ⌈y⌉
  by_cases hx : 0 ≤ x
  · rw [if_pos hx, if_pos (hx.trans hxy)]
    exact Int.floor_mono hxy
  · by_cases hy : 0 ≤ y
    · rw [if_neg hx, if_pos hy]
      exact (Int.ceil_le.mpr (by simpa using (not_le.mp hx).le)).trans (Int.floor_nonneg.mpr hy)
    · rw [if_neg hx, if_neg hy]
      exact Int.ceil_mono hxy

/-- The lower bound of a drawing is not below the corner it is made of. -/
theorem le_toInt_iff (x : ℝ) : x ≤ (toInt x : ℤ) ↔ RoundsInwards x := by
  constructor
  · intro h
    by_cases hx : x ≤ 0
    · exact .inl hx
    · exact .inr ⟨toInt x, le_antisymm h (toInt_le (not_le.mp hx).le)⟩
  · rintro (hx | ⟨n, rfl⟩)
    · show x ≤ ((if 0 ≤ x then ⌊x⌋ else ⌈x⌉ : ℤ) : ℝ)
      by_cases h0 : 0 ≤ x
      · obtain rfl : x = 0 := le_antisymm hx h0
        simp
      · rw [if_neg h0]
        exact Int.le_ceil x
    · rw [toInt_intCast]

variable {F : Type} [Zero F]

/-- The bounds of the two drawings are ordered, and whatever they draw for a dead player, the player
is in the rectangle, alive and of full health, and nothing else has changed. -/
def SpawnsInRectangle (F : Type) [Zero F] (m : GameMap ℝ) : Prop :=
  (toInt m.topLeft.x ≤ toInt m.bottomRight.x ∧ toInt m.topLeft.y ≤ toInt m.bottomRight.y) ∧
    ∀ (g : Game ℝ F) (ρ : Rehash ℕ) (playerId : ℕ) (draw : ℤ × ℤ), g.gameMap = m →
      playerId ∈ g.players.keys → (g.players.val playerId).alive = false → DrawAllowed m draw →
        let player := g.players.val playerId
        let g' := spawnPlayer ρ g playerId draw
        let player' := g'.players.val playerId
        m.InRectangle player'.centre ∧ player'.alive = true ∧ player'.health = 100 ∧
          player'.kills = player.kills ∧ player'.deaths = player.deaths ∧
          player'.velocity = player.velocity ∧ g'.players.keys = g.players.keys ∧
          ∀ j ≠ playerId, g'.players.val j = g.players.val j

theorem spawnPlayer_of_dead {g : Game ℝ F} {ρ : Rehash ℕ} {playerId : ℕ} {draw : ℤ × ℤ}
    (hkey : playerId ∈ g.players.keys) (hdead : (g.players.val playerId).alive = false) :
    spawnPlayer ρ g playerId draw = g.setPlayer playerId { g.players.val playerId with
      alive := true, health := 100, centre := drawnPoint draw } := by
  have hindex : g.indexPlayer ρ playerId = g := by
    unfold Game.indexPlayer
    rw [UMap.index_of_mem _ _ hkey]
  unfold spawnPlayer
  rw [hindex]
  exact if_pos hdead

/-- The drawn points are in the rectangle if and only if the lower bounds are. -/
theorem spawnsInRectangle_iff_lower {m : GameMap ℝ}
    (hx : m.topLeft.x ≤ m.bottomRight.x ∧ 0 ≤ m.bottomRight.x)
    (hy : m.topLeft.y ≤ m.bottomRight.y ∧ 0 ≤ m.bottomRight.y) :
    SpawnsInRectangle F m ↔ RoundsInwards m.topLeft.x ∧ RoundsInwards m.topLeft.y := by
  rw [← le_toInt_iff, ← le_toInt_iff]
  constructor
  · rintro ⟨⟨hordx, hordy⟩, hspawn⟩
    -- a player who has just joined, and the lowest values that can be drawn
    have hdraw : DrawAllowed m (toInt m.topLeft.x, toInt m.topLeft.y) :=
      ⟨⟨le_refl _, hordx⟩, ⟨le_refl _, hordy⟩, rfl⟩
    have hkey : 0 ∈ (createNewPlayer Rehash.front (Game.initial (F := F) m) 0).players.keys := by
      simp [createNewPlayer]
    have hdead : ((createNewPlayer Rehash.front (Game.initial (F := F) m) 0).players.val 0).alive
        = false := by
      simp [createNewPlayer, Game.initial, UMap.val_insert, Player.new]
    have hinside := (hspawn _ Rehash.front 0 _ rfl hkey hdead hdraw).1
    rw [spawnPlayer_of_dead hkey hdead] at hinside
    simp only [Game.setPlayer, UMap.val_set, if_true] at hinside
    exact ⟨hinside.1.1, hinside.2.1⟩
  · rintro ⟨hlowx, hlowy⟩
    refine ⟨⟨toInt_mono hx.1, toInt_mono hy.1⟩, fun g ρ playerId draw _ hkey hdead hdraw => ?_⟩
    obtain ⟨⟨hx0, hx1⟩, ⟨hy0, hy1⟩, -⟩ := hdraw
    have hinside : m.InRectangle (drawnPoint draw) := by
      refine ⟨⟨hlowx.trans ?_, le_trans ?_ (toInt_le hx.2)⟩, hlowy.trans ?_,
        le_trans ?_ (toInt_le hy.2)⟩
      all_goals exact Int.cast_le.mpr (by assumption)
    rw [spawnPlayer_of_dead hkey hdead]
    simp only [Game.setPlayer, UMap.val_set, if_true]
    refine ⟨hinside, trivial, trivial, trivial, trivial, trivial, rfl, fun j hj => ?_⟩
    rw [if_neg hj]

/-- The least coordinate of a border is what the search for it finds. -/
theorem roundsInwards_foldl_min_iff {xs : List ℝ} (hne : xs ≠ []) (hrange : ∀ x ∈ xs, IntRange x) :
    RoundsInwards (xs.foldl min NumericLimits.max) ↔
      ∀ x ∈ xs, (∀ y ∈ xs, x ≤ y) → RoundsInwards x := by
  have hleast : xs.foldl min NumericLimits.max ∈ xs := by
    obtain ⟨x, hx⟩ := List.exists_mem_of_ne_nil xs hne
    exact (mem_foldl_min_iff hne _).mpr ⟨x, hx, le_numericLimits_max (hrange x hx)⟩
  constructor
  · intro h x hx hmin
    rwa [le_antisymm (hmin _ hleast) (foldl_min_le hx _)]
  · intro h
    exact h _ hleast fun y hy => foldl_min_le hy _

theorem spawnsInRectangle_iff_least {m : GameMap ℝ} (hcorners : m = m.setCorners)
    (hne : m.borders ≠ []) (hrange : ∀ p ∈ m.borders, IntRange p.x ∧ IntRange p.y) :
    SpawnsInRectangle F m ↔
      (∀ p ∈ m.borders, (∀ q ∈ m.borders, p.x ≤ q.x) → RoundsInwards p.x) ∧
        ∀ p ∈ m.borders, (∀ q ∈ m.borders, p.y ≤ q.y) → RoundsInwards p.y := by
  have hxs : m.borders.map Point.x ≠ [] := fun h => hne (List.map_eq_nil_iff.mp h)
  have hys : m.borders.map Point.y ≠ [] := fun h => hne (List.map_eq_nil_iff.mp h)
  have hleft := roundsInwards_foldl_min_iff hxs (List.forall_mem_map.mpr fun p hp => (hrange p hp).1)
  have htop := roundsInwards_foldl_min_iff hys (List.forall_mem_map.mpr fun p hp => (hrange p hp).2)
  simp only [List.forall_mem_map] at hleft htop
  -- some point of the border is between the corners, and the right and the bottom are positive
  obtain ⟨p, hp⟩ := List.exists_mem_of_ne_nil _ hne
  have hinside : m.InRectangle p := by
    rw [hcorners]
    exact GameMap.inRectangle_setCorners p hp
  have hright : 0 ≤ m.bottomRight.x := by
    rw [hcorners, GameMap.setCorners_bottomRight, List.foldl_max_eq_max hxs]
    exact numericLimits_min_pos.le.trans (le_max_left _ _)
  have hbottom : 0 ≤ m.bottomRight.y := by
    rw [hcorners, GameMap.setCorners_bottomRight, List.foldl_max_eq_max hys]
    exact numericLimits_min_pos.le.trans (le_max_left _ _)
  rw [spawnsInRectangle_iff_lower ⟨hinside.1.1.trans hinside.1.2, hright⟩
    ⟨hinside.2.1.trans hinside.2.2, hbottom⟩, ← hleft, ← htop]
  have htopLeft := congrArg GameMap.topLeft hcorners
  rw [GameMap.setCorners_topLeft] at htopLeft
  rw [htopLeft]

/-- **Spawning.** On a map with a border whose coordinates fit into an `int`, whatever is drawn puts
the player into the rectangle if and only if the least coordinate of each axis is negative, zero or
an integer. -/
theorem spawnsInRectangle_iff {stod : List Char → Option ℝ} {files : String → Option (List Char)}
    {mapName : String} {m : GameMap ℝ} (h : getMap stod files mapName GameMap.empty = some m)
    (hne : m.borders ≠ []) (hrange : ∀ p ∈ m.borders, IntRange p.x ∧ IntRange p.y) :
    SpawnsInRectangle F m ↔
      (∀ p ∈ m.borders, (∀ q ∈ m.borders, p.x ≤ q.x) → RoundsInwards p.x) ∧
        ∀ p ∈ m.borders, (∀ q ∈ m.borders, p.y ≤ q.y) → RoundsInwards p.y :=
  spawnsInRectangle_iff_least (eq_setCorners_of_getMap h hne) hne hrange

/-- A map with negative integers only. -/
theorem spawnsInRectangle_negativeBorder :
    ∃ m, getMap stodDecimal (fun _ => some negativeBorder) "map1" GameMap.empty = some m ∧
      SpawnsInRectangle ℝ m := by
  obtain ⟨m, hload, hborders⟩ := getMap_border (by decide) (by decide) spells_negativeBorder
  have hne : m.borders ≠ [] := by
    rw [hborders]
    exact List.cons_ne_nil _ _
  refine ⟨m, hload, (spawnsInRectangle_iff hload hne ?_).mpr ?_⟩
  · rw [hborders]
    simp only [List.forall_mem_cons, IntRange]
    norm_num
  · rw [hborders]
    simp only [List.forall_mem_cons, RoundsInwards]
    norm_num

/-- A border with a positive fraction on the left. -/
def fractionBorder : List Char := "B,0.5,0,10,0,10,10".toList

noncomputable def fractionPoints : List (Point ℝ) :=
  [⟨((0 : ℕ) : ℝ) + ((5 : ℕ) : ℝ) / ((10 : ℕ) : ℝ) ^ 1, ((0 : ℕ) : ℝ)⟩,
    ⟨((10 : ℕ) : ℝ), ((0 : ℕ) : ℝ)⟩, ⟨((10 : ℕ) : ℝ), ((10 : ℕ) : ℝ)⟩]

theorem spells_fractionBorder :
    (MapLine.border fractionPoints).Spells stodDecimal fractionBorder :=
  ⟨[], ["0.5", "0", "10", "0", "10", "10"].map String.toList, Delimited.pieces_eq_iff.mp rfl, rfl⟩

/-- A spawn on this map can put the player at 0, left of the rectangle. -/
theorem fractionBorder_spawns_outside :
    ∃ m, getMap stodDecimal (fun _ => some fractionBorder) "map1" GameMap.empty = some m ∧
      m.borders ≠ [] ∧ (∀ p ∈ m.borders, IntRange p.x ∧ IntRange p.y) ∧
      ¬ SpawnsInRectangle ℝ m := by
  obtain ⟨m, hload, hborders⟩ := getMap_border (by decide) (by decide) spells_fractionBorder
  have hne : m.borders ≠ [] := by
    rw [hborders]
    exact List.cons_ne_nil _ _
  have hrange : ∀ p ∈ m.borders, IntRange p.x ∧ IntRange p.y := by
    rw [hborders]
    simp only [fractionPoints, List.forall_mem_cons, IntRange]
    norm_num
  refine ⟨m, hload, hne, hrange, fun hspawns => ?_⟩
  rw [spawnsInRectangle_iff_least (eq_setCorners_of_getMap hload hne) hne hrange, hborders]
    at hspawns
  have hhalf := hspawns.1 _ List.mem_cons_self (by
    simp only [fractionPoints, List.forall_mem_cons]
    norm_num)
  rcases hhalf with hneg | ⟨n, hn⟩
  · norm_num at hneg
  · have htwice : ((1 : ℤ) : ℝ) = ((2 * n : ℤ) : ℝ) := by
      push_cast
      rw [← hn]
      norm_num
    have hodd := Int.cast_injective htwice
    omega

end Spawning

end PRShooter
