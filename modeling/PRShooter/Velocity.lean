import PRShooter.Double
import PRShooter.Payload
import PRShooter.Roster

/-!
# Speed

Whatever the clients send, the velocity of a player is zero or has passed the test of
`changePlayerMovement`. Over `Double` that is a bound on the real speed, infinities and NaN
included, and so on the way of one step (`speed_bounded`).
-/

set_option linter.unusedSectionVars false

namespace PRShooter

section Generic

variable {D F : Type} [Zero D] [One D] [Zero F] [NatCast D] [IntCast D] [OfScientific D] [Add D]
  [Sub D] [Mul D] [Div D] [Neg D] [LT D] [LE D] [DecidableLT D] [DecidableLE D] [HasSqrt D]

/-! ## Runs of the game alone -/

/-- One critical section of the game. Clients may send anything in any order, and a spawn may end
anywhere. -/
def Game.handle [Trig F D] [OfWord 64 D] [OfWord 32 F] (g : Game D F) :
    HostEvent → Option (Game D F)
  | .handle ρ draw m => some ((handleMessage ρ draw g m).run []).1.1
  | .tick ρ => PRShooter.tick ρ g
  | .serialize => some g

/-- The velocity is the one a player is created with, or has passed the test. -/
def VelocityTested (v : Point D) : Prop := v = 0 ∨ velocityAllowed v.x v.y = true

/-- So is that of every player in the map. -/
def AllTested (players : UMap ℕ (Player D F)) : Prop :=
  players.All fun _ p => VelocityTested p.velocity

namespace AllTested

variable {players players' : UMap ℕ (Player D F)}

theorem set_index (h : AllTested players) (ρ : Rehash ℕ) (k : ℕ) {p : Player D F}
    (hp : p.velocity = ((players.index ρ k (Player.new 0)).val k).velocity ∨
      velocityAllowed p.velocity.x p.velocity.y = true) :
    AllTested ((players.index ρ k (Player.new 0)).set k p) := by
  have hindex : AllTested (players.index ρ k (Player.new 0)) := UMap.All.index h ρ (.inl rfl)
  refine UMap.All.set hindex fun hk => ?_
  rcases hp with hsame | htest
  · rw [hsame]
    exact hindex k hk
  · exact .inr htest

theorem onlyCentres (h : AllTested players) (hmoved : OnlyCentres players players') :
    AllTested players' := by
  intro k hk
  rw [hmoved.velocity k]
  exact h k (hmoved.1 ▸ hk)

theorem onlyHits (h : AllTested players) (hhits : OnlyHits players players') :
    AllTested players' := by
  intro k hk
  by_cases hold : k ∈ players.keys
  · rw [hhits.velocity k hold]
    exact h k hold
  · exact .inl (hhits.fresh k hk hold).2

end AllTested

/-! ## What a step preserves -/

section Step

variable {g g' : Game D F}

theorem allTested_tick (h : AllTested g.players) {ρ : Rehash ℕ} (htick : tick ρ g = some g') :
    AllTested g'.players := by
  obtain ⟨players, players', left, hplayers, hloop, rfl⟩ := tick_eq_some.mp htick
  have hmoved := (onlyCentres_updatePositions g).trans (onlyCentres_checkPlayerCollisions hplayers)
  exact (h.onlyCentres hmoved).onlyHits (onlyHits_projectileLoop hloop)

variable [Trig F D]

theorem allTested_apply (h : AllTested g.players) (ρ : Rehash ℕ) (draw : ℤ × ℤ) (c : ℕ)
    (op : ClientOp D F) : AllTested (op.apply ρ draw g c).1.players := by
  cases op with
  | spawn =>
    simp only [ClientOp.apply, spawnPlayer]
    split_ifs
    · exact h.set_index ρ c (.inl rfl)
    · exact UMap.All.index h ρ (.inl rfl)
  | shoot =>
    simp only [ClientOp.apply, shootProjectile]
    split_ifs
    · exact UMap.All.index h ρ (.inl rfl)
    · exact UMap.All.index h ρ (.inl rfl)
  | changeOrientation angle => exact h.set_index ρ c (.inl rfl)
  | changeMovementDirection velocityX velocityY =>
    simp only [ClientOp.apply, changePlayerMovement]
    split_ifs with htest
    · exact h.set_index ρ c (.inr htest)
    · exact h
  | ping id => exact h
  | unknown => exact h

variable [OfWord 64 D] [OfWord 32 F]

theorem allTested_handle (h : AllTested g.players) {e : HostEvent} (hstep : g.handle e = some g') :
    AllTested g'.players := by
  cases e with
  | handle ρ draw m =>
    obtain rfl := Option.some.inj hstep
    obtain ⟨messageType, c, payload⟩ := m
    cases messageType with
    | newConnection => exact UMap.All.insert h ρ (.inl rfl)
    | lostConnection => exact UMap.All.erase h c
    | empty => exact h
    | message =>
      rw [run_handleMessage_message]
      exact allTested_apply h ρ draw c _
  | tick ρ => exact allTested_tick h hstep
  | serialize =>
    obtain rfl := Option.some.inj hstep
    exact h

/-- **Run.** Over any arithmetic, no player ever has a velocity that was not tested. -/
theorem allTested_reach {m : GameMap D} (h : Lts.Reach Game.handle Lts.Any (Game.initial m) g) :
    AllTested g.players :=
  h.invariant (I := fun g => AllTested g.players) (fun _ hk => absurd hk List.not_mem_nil)
    fun _ _ _ hI _ hstep => allTested_handle hI hstep

/-! ## Rejected messages -/

/-- The `double` in the eight bytes from `offset` on. -/
def Message.double (m : Message) (offset : ℕ) : D :=
  ofWord (BitVec.ofNat 64 (LittleEndian.value ((List.range 8).map fun i => m.data (offset + i))))

theorem DataType.eq_of_ofByte {n : ℕ} (h : ofByte n = changeMovementDirection) : n = 13 := by
  unfold ofByte at h
  split at h
  all_goals first | rfl | exact absurd h (by decide)

/-- A movement is handled with its two operands. -/
theorem handleMessage_of_movement (ρ : Rehash ℕ) (draw : ℤ × ℤ) (g : Game D F) (c : ℕ)
    {payload : Message} (htype : payload.dataType = .changeMovementDirection) :
    ((handleMessage ρ draw g ⟨.message, c, payload⟩).run []).1.1 =
      changePlayerMovement ρ g c (payload.double 1) (payload.double 9) := by
  have hop : ((payload.readOp : Reading (ClientOp D F)).run []).1
      = .changeMovementDirection (payload.double 1) (payload.double 9) := by
    unfold Message.readOp
    rw [StateT.run_bind, Message.run_read_type, DataType.eq_of_ofByte htype]
    rfl
  rw [run_handleMessage_message, hop]
  rfl

/-- If the operands fail the test, the whole game is left as it is. -/
theorem handleMessage_of_rejected (ρ : Rehash ℕ) (draw : ℤ × ℤ) (g : Game D F) (c : ℕ)
    {payload : Message} (htype : payload.dataType = .changeMovementDirection)
    (htest : velocityAllowed (payload.double 1 : D) (payload.double 9) = false) :
    ((handleMessage ρ draw g ⟨.message, c, payload⟩).run []).1.1 = g := by
  rw [handleMessage_of_movement ρ draw g c htype]
  unfold changePlayerMovement
  rw [if_neg (by rw [htest]; exact Bool.false_ne_true)]

end Step

end Generic

/-! ## Real speeds -/

/-- The point with the given finite coordinates. -/
def Point.toDouble (p : Point ℝ) : Point Double := ⟨.finite p.x, .finite p.y⟩

/-- The test passes finite velocities only. -/
theorem velocityAllowed_double {v : Point Double} (h : velocityAllowed v.x v.y = true) :
    ∃ w : Point ℝ, v = w.toDouble ∧ w.x ^ 2 + w.y ^ 2 ≤ 1.00001 := by
  obtain ⟨a, b⟩ := v
  have hle : a * a + b * b ≤ .finite (1 + 0.00001) := of_decide_eq_true h
  cases a with
  | nan => exact absurd hle (Double.nan_le _)
  | inf s =>
    rw [Double.inf_mul_inf] at hle
    cases b with
    | nan => exact absurd hle (Double.nan_le _)
    | inf t =>
      rw [Double.inf_mul_inf, Double.inf_add_inf] at hle
      exact absurd hle (Double.inf_le_finite _)
    | finite y => exact absurd hle (Double.inf_le_finite _)
  | finite x =>
    cases b with
    | nan => exact absurd hle (Double.nan_le _)
    | inf t =>
      rw [Double.inf_mul_inf] at hle
      exact absurd hle (Double.inf_le_finite _)
    | finite y =>
      refine ⟨⟨x, y⟩, rfl, ?_⟩
      simp only [Double.finite_mul, Double.finite_add, Double.finite_le] at hle
      show x ^ 2 + y ^ 2 ≤ 1.00001
      rw [sq, sq]
      norm_num at hle ⊢
      exact hle

/-- The real velocity of a player whose velocity was tested. -/
theorem VelocityTested.exists_real {v : Point Double} (h : VelocityTested v) :
    ∃ w : Point ℝ, v = w.toDouble ∧ w.x ^ 2 + w.y ^ 2 ≤ 1.00001 := by
  rcases h with rfl | htest
  · exact ⟨⟨0, 0⟩, rfl, by norm_num⟩
  · exact velocityAllowed_double htest

/-- The longest way of a player in one step. -/
noncomputable def maxStep : ℝ := 300 * 0.003 * Real.sqrt 1.00001

/-- The point is displaced by a vector that is no longer than `maxStep`: if it is finite, by at most
this distance. -/
def MovedAtMost (a b : Point Double) : Prop :=
  ∃ d : Point ℝ, d.length ≤ maxStep ∧ b = a + d.toDouble ∧
    ∀ a' : Point ℝ, a = a'.toDouble → ∃ b' : Point ℝ, b = b'.toDouble ∧ distance a' b' ≤ maxStep

theorem movedAtMost_advance {p : Player Double Double} {v : Point ℝ}
    (hv : p.velocity = v.toDouble) (hslow : v.x ^ 2 + v.y ^ 2 ≤ 1.00001) (halive : p.alive = true) :
    MovedAtMost p.centre p.advance.centre := by
  set d : Point ℝ := ⟨v.x * 300 * 0.003, v.y * 300 * 0.003⟩ with hd
  have hadvance : p.advance.centre = p.centre + d.toDouble := by
    unfold Player.advance
    rw [if_neg (by rw [halive]; decide)]
    show p.centre + p.velocity * _ * _ = _
    rw [hv]
    apply Point.ext' <;> rfl
  have hsq : square d.x + square d.y = (300 * 0.003) ^ 2 * (v.x ^ 2 + v.y ^ 2) := by
    simp only [hd, square]
    ring
  have hlength : d.length ≤ maxStep := by
    show Real.sqrt (square d.x + square d.y) ≤ _
    rw [hsq, Real.sqrt_mul (by positivity), Real.sqrt_sq (by norm_num)]
    exact mul_le_mul_of_nonneg_left (Real.sqrt_le_sqrt hslow) (by norm_num)
  refine ⟨d, hlength, hadvance, fun a' ha => ⟨a' + d, ?_, ?_⟩⟩
  · rw [hadvance, ha]
    rfl
  · have hdistance : distance a' (a' + d) = d.length := by
      simp [distance, Point.length]
    rw [hdistance]
    exact hlength

/-- **Speed.** In every run, every velocity is finite and of length at most 1 up to the tolerance, a
rejected movement changes nothing, and a step moves an alive player by at most `maxStep` and no other
player at all. -/
theorem speed_bounded {m : GameMap Double} {g : Game Double Double}
    (h : Lts.Reach Game.handle Lts.Any (Game.initial m) g) :
    (∀ k ∈ g.players.keys, ∃ v : Point ℝ,
        (g.players.val k).velocity = v.toDouble ∧ v.x ^ 2 + v.y ^ 2 ≤ 1.00001) ∧
      (∀ ρ draw c (payload : Message), payload.dataType = .changeMovementDirection →
        velocityAllowed (payload.double 1 : Double) (payload.double 9) = false →
        ((handleMessage ρ draw g ⟨.message, c, payload⟩).run []).1.1.players = g.players) ∧
      ∀ k ∈ g.players.keys,
        ((g.players.val k).alive = true →
          MovedAtMost (g.players.val k).centre ((updatePositions g).players.val k).centre) ∧
        ((g.players.val k).alive = false →
          (updatePositions g).players.val k = g.players.val k) := by
  have hreal := fun k hk => (allTested_reach h k hk).exists_real
  refine ⟨hreal, fun ρ draw c payload htype htest => ?_,
    fun k hk => ⟨fun halive => ?_, fun hdead => ?_⟩⟩
  · rw [handleMessage_of_rejected ρ draw g c htype htest]
  · obtain ⟨v, hv, hslow⟩ := hreal k hk
    exact movedAtMost_advance hv hslow halive
  · exact if_pos hdead

/-- A map without border, walls and obstacles. -/
def bareMap : GameMap Double := ⟨[], 0, 0, [], []⟩

/-- Client 0 has joined and spawned on it. -/
def joinedAndSpawned : Game Double Double :=
  spawnPlayer Rehash.front (createNewPlayer Rehash.front (Game.initial bareMap) 0) 0 (3, 4)

/-- A CHANGE_MOVEMENT_DIRECTION to the right: 1 and 0. -/
def toTheRight : Message :=
  .ofBytes [13, 0, 0, 0, 0, 0, 0, 0xF0, 0x3F, 0, 0, 0, 0, 0, 0, 0, 0]

/-- A CHANGE_MOVEMENT_DIRECTION with a NaN for its first operand. -/
def notANumber : Message :=
  .ofBytes [13, 0, 0, 0, 0, 0, 0, 0xF8, 0x7F, 0, 0, 0, 0, 0, 0, 0, 0]

theorem operands_toTheRight :
    (toTheRight.double 1 : Double) = .finite 1 ∧ (toTheRight.double 9 : Double) = .finite 0 := by
  constructor
  · show Double.ofIeee 11 52 0x3FF0000000000000 = .finite 1
    norm_num [Double.ofIeee, ieeeValue]
  · show Double.ofIeee 11 52 0 = .finite 0
    norm_num [Double.ofIeee, ieeeValue]

theorem operand_notANumber : (notANumber.double 1 : Double) = .nan := by
  show Double.ofIeee 11 52 0x7FF8000000000000 = .nan
  norm_num [Double.ofIeee]

/-- Client 0 walks to the right, and then asks for a speed that is not a number. -/
theorem speed_bounded_walking : ∃ g : Game Double Double,
    Lts.Reach Game.handle Lts.Any (Game.initial bareMap) g ∧
    (g.players.val 0).velocity = ⟨.finite 1, .finite 0⟩ ∧
    ((updatePositions g).players.val 0).centre ≠ (g.players.val 0).centre ∧
    MovedAtMost (g.players.val 0).centre ((updatePositions g).players.val 0).centre ∧
    ((handleMessage Rehash.front (0, 0) g ⟨.message, 0, notANumber⟩).run []).1.1.players
      = g.players := by
  let g := changePlayerMovement Rehash.front joinedAndSpawned 0 (.finite 1) (.finite 0)
  have hallowed : velocityAllowed (.finite 1 : Double) (.finite 0) = true := by
    refine decide_eq_true ?_
    show Double.finite (1 * 1) + .finite (0 * 0) ≤ .finite (1 + 0.00001)
    rw [Double.finite_add, Double.finite_le]
    norm_num
  have hrejected :
      velocityAllowed (notANumber.double 1 : Double) (notANumber.double 9) = false := by
    rw [operand_notANumber]
    exact decide_eq_false (Double.nan_le _)
  have hwalks : joinedAndSpawned.handle
      (.handle Rehash.front (0, 0) ⟨.message, 0, toTheRight⟩) = some g := by
    refine congrArg some ?_
    rw [handleMessage_of_movement Rehash.front (0, 0) joinedAndSpawned 0 rfl,
      operands_toTheRight.1, operands_toTheRight.2]
  have hreach : Lts.Reach Game.handle Lts.Any (Game.initial bareMap) g :=
    ((Lts.Reach.refl.tail (i := .handle Rehash.front (0, 0) ⟨.newConnection, 0, .ofBytes []⟩)
      trivial rfl).tail (i := .handle Rehash.front (3, 4) ⟨.message, 0, .ofBytes [10]⟩)
      trivial rfl).tail trivial hwalks
  have hg : g = (joinedAndSpawned.indexPlayer Rehash.front 0).setPlayer 0
      { joinedAndSpawned.players.val 0 with velocity := ⟨.finite 1, .finite 0⟩ } := if_pos hallowed
  have hval : g.players.val 0
      = { joinedAndSpawned.players.val 0 with velocity := ⟨.finite 1, .finite 0⟩ } := by
    rw [hg]
    rfl
  have hkey : 0 ∈ g.players.keys := by
    rw [hg]
    exact List.mem_singleton_self 0
  obtain ⟨-, hreject, hstep⟩ := speed_bounded hreach
  refine ⟨g, hreach, congrArg Player.velocity hval, ?_,
    (hstep 0 hkey).1 (congrArg Player.alive hval), hreject _ _ _ notANumber rfl hrejected⟩
  show (g.players.val 0).advance.centre ≠ _
  rw [hval]
  intro hsame
  have hx : Double.finite (3 + 1 * 300 * 0.003) = .finite 3 := congrArg Point.x hsame
  have := Double.finite.inj hx
  norm_num at this

end PRShooter
