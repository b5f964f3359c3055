import Mathlib.Algebra.Order.Group.Unbundled.Abs
import Mathlib.Tactic.Linarith
import Mathlib.Tactic.Ring
import PRShooter.Lts

/-!
# The clock of the update thread

`Timer` and `Game::updateThread` over the readings of the clock, which are numbers of nanoseconds.
A tick takes one timestep from the accumulator. What it does to the game is `tick`, and is left out
here.

`restart` loses what is below a microsecond, and the time between the two readings it makes. So the
ticks keep up with the clock exactly as long as the losses of all iterations together are at most a
microsecond (`inStep_iff`), and each iteration may add to them (`dropped_lateReadings`).
-/

namespace PRShooter

namespace UpdateTimer

/-! ## The functions -/

/-- A microsecond, in nanoseconds. -/
def microsecond : ℤ := 1000

/-- `std::chrono::duration_cast` from nanoseconds to microseconds. -/
def durationCast (nanoseconds : ℤ) : ℤ := nanoseconds.tdiv microsecond

/-- `Timer`, with its default types. -/
structure Timer where
  startTime : ℤ

/-- `Timer::start`. -/
def Timer.start (_ : Timer) (now : ℤ) : Timer := ⟨now⟩

/-- `Timer::duration`. -/
def Timer.duration (timer : Timer) (now : ℤ) : ℤ := durationCast (now - timer.startTime)

/-- `Timer::restart`, which reads the clock in `duration` and in `start`. -/
def Timer.restart (timer : Timer) (now later : ℤ) : ℤ × Timer :=
  (timer.duration now, timer.start later)

/-- `Constants::timestep`, in microseconds. -/
def timestep : ℤ := 3000

/-- The variables of `updateThread`, and the number of ticks it has done. -/
structure UpdateThread where
  updateTimer : Timer
  accumulator : ℤ
  ticks : ℕ

/-- The inner loop of `updateThread`, for at most this many turns. -/
def tickLoop : ℕ → UpdateThread → Option UpdateThread
  | 0, u => if u.accumulator > timestep then none else some u
  | turns + 1, u =>
    if u.accumulator > timestep then
      tickLoop turns { u with accumulator := u.accumulator - timestep, ticks := u.ticks + 1 }
    else some u

/-- An iteration of the outer loop of `updateThread`, given the readings of `restart`. -/
def iteration (turns : ℕ) (u : UpdateThread) (readings : ℤ × ℤ) : Option UpdateThread :=
  let (duration, updateTimer) := u.updateTimer.restart readings.1 readings.2
  let u := { u with updateTimer, accumulator := u.accumulator + duration }
  if u.accumulator > timestep then tickLoop turns u else some u

/-- `updateThread`, given the reading when the timer is made and those of each iteration. -/
def updateThread (turns : ℕ) (first : ℤ) (readings : List (ℤ × ℤ)) : Option UpdateThread :=
  Lts.run (iteration turns) readings ⟨⟨first⟩, 0, 0⟩

/-! ## Clock time and ticks -/

/-- All readings, one after the other. -/
def clockReadings (first : ℤ) (readings : List (ℤ × ℤ)) : List ℤ :=
  first :: readings.flatMap fun r => [r.1, r.2]

/-- The nanoseconds between the first reading and the last. -/
def elapsed (first : ℤ) (readings : List (ℤ × ℤ)) : ℤ :=
  (clockReadings first readings).getLast (List.cons_ne_nil _ _) - first

/-- The microseconds of the ticks that have been done, and those that are left. -/
def UpdateThread.counted (u : UpdateThread) : ℤ := u.ticks * timestep + u.accumulator

/-- The thread comes out of every inner loop, with at most a timestep left, and has kept up with the
clock to a microsecond. -/
def InStep (first : ℤ) (readings : List (ℤ × ℤ)) : Prop :=
  ∃ turns u, updateThread turns first readings = some u ∧
    0 ≤ u.accumulator ∧ u.accumulator ≤ timestep ∧
    |microsecond * u.counted - elapsed first readings| ≤ microsecond

/-- The nanoseconds the calls of `restart` lose: below the last microsecond, and between the two
readings. -/
def dropped : ℤ → List (ℤ × ℤ) → ℤ
  | _, [] => 0
  | start, (now, later) :: rest => (now - start) % microsecond + (later - now) + dropped later rest

theorem timestep_nonneg : 0 ≤ timestep := by decide

variable {u u' : UpdateThread} {start first now later : ℤ} {readings : List (ℤ × ℤ)} {turns : ℕ}

/-! ## The inner loop -/

/-- With a turn for each timestep the inner loop ends, and leaves at most a timestep. -/
theorem tickLoop_spec (h : 0 ≤ u.accumulator)
    (hturns : u.accumulator ≤ turns * timestep + timestep) :
    ∃ u', tickLoop turns u = some u' ∧ 0 ≤ u'.accumulator ∧ u'.accumulator ≤ timestep ∧
      u'.counted = u.counted ∧ u'.updateTimer = u.updateTimer := by
  induction turns generalizing u with
  | zero =>
    have hle : u.accumulator ≤ timestep := by simpa using hturns
    refine ⟨u, ?_, h, hle, rfl, rfl⟩
    unfold tickLoop
    rw [if_neg (not_lt.mpr hle)]
  | succ turns ih =>
    unfold tickLoop
    by_cases hmore : u.accumulator > timestep
    · rw [if_pos hmore]
      have hstep : (0 : ℤ) ≤ u.accumulator - timestep := by omega
      have hleft : u.accumulator - timestep ≤ turns * timestep + timestep := by
        push_cast at hturns
        linarith
      obtain ⟨u', hloop, h0, hle, hcounted, htimer⟩ := ih
        (u := { u with accumulator := u.accumulator - timestep, ticks := u.ticks + 1 }) hstep hleft
      refine ⟨u', hloop, h0, hle, ?_, htimer⟩
      rw [hcounted]
      unfold UpdateThread.counted
      push_cast
      ring
    · rw [if_neg hmore]
      exact ⟨u, rfl, h, not_lt.mp hmore, rfl, rfl⟩

/-- More turns than it takes are not used. -/
theorem tickLoop_mono {more : ℕ} (hmore : turns ≤ more) (h : tickLoop turns u = some u') :
    tickLoop more u = some u' := by
  induction turns generalizing u more with
  | zero =>
    unfold tickLoop at h
    by_cases hloop : u.accumulator > timestep
    · rw [if_pos hloop] at h
      cases h
    · rw [if_neg hloop] at h
      cases more <;> simp only [tickLoop, if_neg hloop, h]
  | succ turns ih =>
    obtain ⟨more, rfl⟩ := Nat.exists_eq_add_one.mpr (show 0 < more by omega)
    unfold tickLoop at h ⊢
    by_cases hloop : u.accumulator > timestep
    · rw [if_pos hloop] at h ⊢
      exact ih (by omega) h
    · rw [if_neg hloop] at h ⊢
      exact h

/-! ## The outer loop -/

/-- What `restart` returns is the whole microseconds since the timer was started. -/
theorem Timer.duration_eq {timer : Timer} (h : timer.startTime ≤ now) :
    timer.duration now = (now - timer.startTime) / microsecond :=
  Int.tdiv_eq_ediv_of_nonneg (sub_nonneg.mpr h)

theorem iteration_eq : iteration turns u (now, later) =
    let u : UpdateThread := ⟨⟨later⟩, u.accumulator + u.updateTimer.duration now, u.ticks⟩
    if u.accumulator > timestep then tickLoop turns u else some u := rfl

/-- An iteration counts the whole microseconds since the timer was started. -/
theorem iteration_spec (later : ℤ) (h : 0 ≤ u.accumulator) (hle : u.accumulator ≤ timestep)
    (hnow : u.updateTimer.startTime ≤ now) (hturns : now - u.updateTimer.startTime ≤ turns) :
    ∃ u', iteration turns u (now, later) = some u' ∧ 0 ≤ u'.accumulator ∧
      u'.accumulator ≤ timestep ∧
      u'.counted = u.counted + (now - u.updateTimer.startTime) / microsecond ∧
      u'.updateTimer = ⟨later⟩ := by
  have hpast : 0 ≤ now - u.updateTimer.startTime := sub_nonneg.mpr hnow
  have hduration := Timer.duration_eq hnow
  have h0 : 0 ≤ u.accumulator + u.updateTimer.duration now := by
    rw [hduration]
    exact add_nonneg h (Int.ediv_nonneg hpast (by decide))
  have hsmall : u.updateTimer.duration now ≤ turns := by
    rw [hduration]
    exact (Int.ediv_le_self _ hpast).trans hturns
  have hcounted : (u.ticks : ℤ) * timestep + (u.accumulator + u.updateTimer.duration now)
      = u.counted + (now - u.updateTimer.startTime) / microsecond := by
    rw [hduration]
    unfold UpdateThread.counted
    ring
  rw [iteration_eq]
  by_cases hmore : u.accumulator + u.updateTimer.duration now > timestep
  · have hturns' : u.accumulator + u.updateTimer.duration now ≤ turns * timestep + timestep := by
      unfold timestep at hle ⊢
      omega
    obtain ⟨u', hloop, h0', hle', hkept, htimer⟩ := tickLoop_spec
      (u := ⟨⟨later⟩, u.accumulator + u.updateTimer.duration now, u.ticks⟩) h0 hturns'
    refine ⟨u', ?_, h0', hle', hkept.trans hcounted, htimer⟩
    simp only [if_pos hmore]
    exact hloop
  · refine ⟨⟨⟨later⟩, u.accumulator + u.updateTimer.duration now, u.ticks⟩, ?_, h0,
      not_lt.mp hmore, hcounted, rfl⟩
    simp only [if_neg hmore]

theorem run_mono {more : ℕ} (hmore : turns ≤ more)
    (h : Lts.run (iteration turns) readings u = some u') :
    Lts.run (iteration more) readings u = some u' := by
  induction readings generalizing u with
  | nil => exact h
  | cons r readings ih =>
    obtain ⟨u₁, hstep, hrest⟩ := Option.bind_eq_some_iff.mp h
    have hstep' : iteration more u r = some u₁ := by
      rw [iteration_eq] at hstep ⊢
      by_cases hloop : u.accumulator + u.updateTimer.duration r.1 > timestep
      · simp only [if_pos hloop] at hstep ⊢
        exact tickLoop_mono hmore hstep
      · simp only [if_neg hloop] at hstep ⊢
        exact hstep
    rw [Lts.run_cons, hstep', Option.bind_some]
    exact ih hrest

theorem elapsed_cons : elapsed start ((now, later) :: readings)
    = later - start + elapsed later readings := by
  have hne : clockReadings later readings ≠ [] := List.cons_ne_nil _ _
  show (start :: now :: clockReadings later readings).getLast _ - start = _
  rw [List.getLast_cons (List.cons_ne_nil _ _), List.getLast_cons hne]
  unfold elapsed
  ring

theorem elapsed_nonneg (h : (clockReadings start readings).Pairwise (· ≤ ·)) :
    0 ≤ elapsed start readings := by
  refine sub_nonneg.mpr ?_
  have hmem := List.getLast_mem (List.cons_ne_nil start (readings.flatMap fun r => [r.1, r.2]))
  rcases List.mem_cons.mp hmem with hfirst | hlater
  · exact hfirst.ge
  · exact List.rel_of_pairwise_cons h hlater

/-- The readings of an iteration are in order, and so are the others after them. -/
theorem ordered_cons (h : (clockReadings start ((now, later) :: readings)).Pairwise (· ≤ ·)) :
    start ≤ now ∧ now ≤ later ∧ (clockReadings later readings).Pairwise (· ≤ ·) := by
  obtain ⟨hstart, hrest⟩ := List.pairwise_cons.mp h
  obtain ⟨hnow, hrest⟩ := List.pairwise_cons.mp hrest
  exact ⟨hstart now List.mem_cons_self, hnow later List.mem_cons_self, hrest⟩

theorem dropped_nonneg (h : (clockReadings start readings).Pairwise (· ≤ ·)) :
    0 ≤ dropped start readings := by
  induction readings generalizing start with
  | nil => exact le_rfl
  | cons r readings ih =>
    obtain ⟨now, later⟩ := r
    obtain ⟨-, hlater, hrest⟩ := ordered_cons h
    have hmod : 0 ≤ (now - start) % microsecond := Int.emod_nonneg _ (by decide)
    have hgap := sub_nonneg.mpr hlater
    have hothers := ih hrest
    unfold dropped
    omega

/-- The thread comes out of every inner loop, and has counted all but what has been dropped. -/
theorem run_spec (h : 0 ≤ u.accumulator) (hle : u.accumulator ≤ timestep)
    (hordered : (clockReadings u.updateTimer.startTime readings).Pairwise (· ≤ ·))
    (hturns : elapsed u.updateTimer.startTime readings ≤ turns) :
    ∃ u', Lts.run (iteration turns) readings u = some u' ∧ 0 ≤ u'.accumulator ∧
      u'.accumulator ≤ timestep ∧
      microsecond * u'.counted + dropped u.updateTimer.startTime readings
        = microsecond * u.counted + elapsed u.updateTimer.startTime readings := by
  induction readings generalizing u with
  | nil => exact ⟨u, rfl, h, hle, by simp [dropped, elapsed, clockReadings]⟩
  | cons r readings ih =>
    obtain ⟨now, later⟩ := r
    obtain ⟨hnow, hlater, hrest⟩ := ordered_cons hordered
    rw [elapsed_cons] at hturns ⊢
    have helapsed := elapsed_nonneg hrest
    have hgap : now - u.updateTimer.startTime ≤ turns := by omega
    obtain ⟨u₁, hstep, h0₁, hle₁, hcounted₁, htimer₁⟩ := iteration_spec later h hle hnow hgap
    obtain ⟨u', hrun, h0', hle', hcounted'⟩ := ih (u := u₁) h0₁ hle₁ (by rwa [htimer₁])
      (by rw [htimer₁]; show elapsed later readings ≤ _; omega)
    refine ⟨u', ?_, h0', hle', ?_⟩
    · rw [Lts.run_cons, hstep, Option.bind_some, hrun]
    · rw [htimer₁, hcounted₁] at hcounted'
      have hdivide := Int.mul_ediv_add_emod (now - u.updateTimer.startTime) microsecond
      unfold dropped
      linarith

/-- Whatever the clock shows, the thread comes out of every inner loop, and is behind by what has been
dropped. -/
theorem updateThread_ends (h : (clockReadings first readings).Pairwise (· ≤ ·))
    (hturns : elapsed first readings ≤ turns) :
    ∃ u, updateThread turns first readings = some u ∧ 0 ≤ u.accumulator ∧
      u.accumulator ≤ timestep ∧
      |microsecond * u.counted - elapsed first readings| = dropped first readings := by
  obtain ⟨u, hrun, h0, hle, hcounted⟩ :=
    run_spec (u := ⟨⟨first⟩, 0, 0⟩) le_rfl timestep_nonneg h hturns
  refine ⟨u, hrun, h0, hle, ?_⟩
  have hstart : microsecond * (⟨⟨first⟩, 0, 0⟩ : UpdateThread).counted = 0 := by
    simp [UpdateThread.counted]
  rw [hstart, zero_add] at hcounted
  have hbehind : microsecond * u.counted - elapsed first readings = -dropped first readings := by
    rw [← hcounted]
    ring
  rw [hbehind, abs_neg, abs_of_nonneg (dropped_nonneg h)]

theorem InStep.dropped_le (h : (clockReadings first readings).Pairwise (· ≤ ·))
    (hstep : InStep first readings) : dropped first readings ≤ microsecond := by
  obtain ⟨turns, u, hrun, -, -, hnear⟩ := hstep
  -- any number of turns that is large enough gives the same state
  have hturns : elapsed first readings ≤ (turns + (elapsed first readings).toNat : ℕ) := by omega
  obtain ⟨u', hrun', -, -, hbehind⟩ := updateThread_ends h hturns
  obtain rfl := Option.some.inj ((run_mono (Nat.le_add_right _ _) hrun).symm.trans hrun')
  rwa [hbehind] at hnear

/-- **The ticks keep up with the clock while little is dropped.** The thread comes out of every inner
loop with at most a timestep left, and what it has counted differs by at most a microsecond from the
time that has passed, if and only if no more than a microsecond has been dropped in all its
iterations together. -/
theorem inStep_iff (first : ℤ) (readings : List (ℤ × ℤ))
    (h : (clockReadings first readings).Pairwise (· ≤ ·)) :
    InStep first readings ↔ dropped first readings ≤ microsecond := by
  refine ⟨InStep.dropped_le h, fun hlittle => ?_⟩
  have hturns : elapsed first readings ≤ ((elapsed first readings).toNat : ℤ) := by omega
  obtain ⟨u, hrun, h0, hle, hbehind⟩ := updateThread_ends h hturns
  exact ⟨_, u, hrun, h0, hle, by rwa [hbehind]⟩

/-- Two iterations of a millisecond that lose nothing. -/
theorem inStep_iff_even : InStep 0 [(1000000, 1000000), (2000000, 2000000)] :=
  (inStep_iff 0 _ (by decide)).mpr (by decide)

/-- Iterations that take a millisecond, and each a nanosecond less than a microsecond more. -/
def lateReadings (start : ℤ) : ℕ → List (ℤ × ℤ)
  | 0 => []
  | n + 1 => (start + 1000999, start + 1000999) :: lateReadings (start + 1000999) n

/-- What is dropped has no bound. -/
theorem dropped_lateReadings (start : ℤ) (n : ℕ) : dropped start (lateReadings start n) = n * 999 := by
  induction n generalizing start with
  | zero => rfl
  | succ n ih =>
    have hlost : (start + 1000999 - start) % microsecond = 999 := by
      rw [add_sub_cancel_left]
      rfl
    unfold lateReadings dropped
    rw [ih, hlost]
    push_cast
    ring

/-- Two such iterations are enough. -/
theorem lateReadings_not_inStep :
    (clockReadings 0 (lateReadings 0 2)).Pairwise (· ≤ ·) ∧ ¬ InStep 0 (lateReadings 0 2) := by
  have hordered : (clockReadings 0 (lateReadings 0 2)).Pairwise (· ≤ ·) := by decide
  refine ⟨hordered, fun hstep => ?_⟩
  have hdropped := hstep.dropped_le hordered
  rw [dropped_lateReadings] at hdropped
  exact absurd hdropped (by decide)

end UpdateTimer

end PRShooter
