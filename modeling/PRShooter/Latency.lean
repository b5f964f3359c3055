import PRShooter.Pings
import Mathlib.Algebra.Order.Field.Basic
import Mathlib.Data.List.Chain

/-!
# The latency a client shows

The clock of `start_game` beside the PINGs: a PING is sent when the last one is more than
`ping_period` old. `receive_message` does not know when the PING was sent that an echo answers; it
takes the time of the last one, and `ping_period` for each PING since. No two PINGs are that close, so
the latency is never more than the round trip, and is the round trip exactly when the echo is that of
the last PING (`latency_le_trip`). As in `Pings`, messages arrive whole and in order.
-/

set_option linter.unusedSectionVars false

namespace PRShooter

namespace Pings

/-! ## A session with a clock -/

/-- An echo, when it was received and the latency computed from it. -/
structure Trip (T : Type) where
  echo : Echo
  received : T
  latency : T

/-- A client with its clock. `times` are the values `last_ping[1]` has had, `trips` the echoes. -/
structure Session (T : Type) where
  pings : State
  /-- `last_ping[1]`. -/
  lastPingTime : T
  latency : List T
  /-- The last reading of the clock. -/
  now : T
  times : List T
  trips : List (Trip T)

/-- What happens next. -/
inductive SessionLabel (D F T : Type) where
  /-- The end of a turn of `start_game`, with the readings of the clock for the test and behind
  `send`. -/
  | ping (tested sent : T)
  /-- The client calls `receive_message` and there is a message. -/
  | receive (now : T)
  | other (l : Label D F)

/-- Not one of the steps that look at the clock. -/
def Label.isOther {D F : Type} : Label D F → Bool
  | .send _ _ .ping | .receive => false
  | _ => true

variable {T : Type} [Field T] [LinearOrder T] [IsStrictOrderedRing T]

/-- `ping_period`. -/
def pingPeriod : T := ((2 : ℕ) : T) / ((10 : ℕ) : T)

/-- `append` of a `deque` with a `maxlen`. -/
def dequeAppend (maxlen : ℕ) (l : List T) (x : T) : List T :=
  (l ++ [x]).drop ((l ++ [x]).length - maxlen)

/-- `average`. -/
def average (x : List T) : T := x.sum / (x.length : T)

namespace Session

/-- The client after its constructor. -/
def initial (connected : Bool) (t : T) : Session T :=
  { pings := Pings.initial connected, lastPingTime := t, latency := [0], now := t, times := [t],
    trips := [] }

/-- `receive_message` has decoded an echo. -/
def receiveEcho (s : Session T) (now : T) (echo : Echo) : Session T :=
  let latency := now - s.lastPingTime + (echo.difference : T) * pingPeriod
  { s with
    latency := dequeAppend 15 s.latency latency
    trips := s.trips ++ [⟨echo, now, latency⟩] }

variable {D F : Type} [Zero D] [One D] [Zero F] [NatCast D] [IntCast D] [OfScientific D] [Add D]
  [Mul D] [LE D] [DecidableLE D] [Trig F D] [OfWord 64 D] [OfWord 32 F] [ToWord 64 D]

/-- `send_message` of a PING; the clock is read again when it has been sent. -/
def sendPing (D F : Type) [Zero D] [One D] [Zero F] [NatCast D] [IntCast D] [OfScientific D] [Add D]
    [Mul D] [LE D] [DecidableLE D] [Trig F D] [OfWord 64 D] [OfWord 32 F] [ToWord 64 D]
    (c : ℕ) (s : Session T) (sent : T) : Option (Session T) :=
  let self := s.pings.client
  (Pings.step c s.pings (.send self.angle self.velocity .ping : Label D F)).map fun pings =>
    if self.connected = true ∧ pings.raised = false then
      { s with pings, lastPingTime := sent, now := sent, times := s.times ++ [sent] }
    else { s with pings }

/-- One step; the clock does not go back. -/
def step (c : ℕ) (s : Session T) : SessionLabel D F T → Option (Session T)
  | .ping tested sent =>
    if s.now ≤ tested ∧ tested ≤ sent then
      if tested - s.lastPingTime > pingPeriod then sendPing D F c { s with now := tested } sent
      else some { s with now := tested }
    else none
  | .receive now =>
    if s.now ≤ now then
      (Pings.step c s.pings (.receive : Label D F)).map fun pings =>
        let s' := { s with pings, now }
        match pings.echoes.drop s.pings.echoes.length with
        | [] => s'
        | echo :: _ => s'.receiveEcho now echo
    else none
  | .other l =>
    if l.isOther then (Pings.step c s.pings l).map fun pings => { s with pings } else none

/-- A PING is sent while the id of the last one is below 65535. -/
def Short (s : Session T) : SessionLabel D F T → Prop
  | .ping _ _ => s.pings.client.connected = true → s.pings.client.lastPing < 65535
  | _ => True

instance (s : Session T) : (l : SessionLabel D F T) → Decidable (s.Short l)
  | .ping _ _ => inferInstanceAs (Decidable (_ → _))
  | .receive _ | .other _ => .isTrue trivial

end Session

/-! ## The PINGs behind it -/

section Counts

variable {D F : Type} [Zero D] [One D] [Zero F] [NatCast D] [IntCast D] [OfScientific D] [Add D]
  [Mul D] [LE D] [DecidableLE D] [Trig F D] [OfWord 64 D] [OfWord 32 F] [ToWord 64 D]
  {c : ℕ} {s t : State}

theorem counts_of_sendMessage (hinv : Inv s) (self : Client.Sender)
    (hlast : self.lastPing = s.client.lastPing)
    (hshort : self.connected = true → self.lastPing < 65535) :
    (sendMessage s self .ping).sent = s.sent + (if self.connected then 1 else 0) ∧
      (sendMessage s self .ping).echoes = s.echoes := by
  unfold sendMessage
  cases hconnected : self.connected with
  | false =>
    rw [sendMessage_of_not_connected hconnected]
    exact ⟨by simp [sendBytes, completeFrames_nil], rfl⟩
  | true =>
    have hnumber : self.lastPing = s.sent := hlast.trans hinv.lastPing
    have hsent : s.sent < 65535 := by exact_mod_cast hnumber ▸ hshort hconnected
    rw [sendMessage_ping self hconnected hnumber hsent]
    have hframes := completeFrames_frame (Client.Command.length_body_lt (.ping (s.sent + 1)))
    exact ⟨by simp [sendBytes, hframes], rfl⟩

theorem counts_of_ping (hinv : Inv s) (hshort : s.client.connected = true → s.client.lastPing < 65535)
    {angle : BitVec 32} {velocity : Point (BitVec 64)}
    (hstep : step c s (.send angle velocity .ping : Label D F) = some t) :
    t.sent = s.sent + (if s.client.connected then 1 else 0) ∧ t.echoes = s.echoes := by
  rw [step_send hinv.raised] at hstep
  obtain rfl := Option.some.inj hstep
  exact counts_of_sendMessage hinv _ rfl hshort

theorem counts_of_other {l : Label D F} (hl : l.isOther = true) (hstep : step c s l = some t) :
    t.sent = s.sent ∧ t.echoes = s.echoes := by
  cases l with
  | receive => cases hl
  | handle ρ draw g m =>
    simp only [step, handleNext] at hstep
    split at hstep
    · cases hstep
    · split_ifs at hstep
      exact Option.some.inj hstep ▸ ⟨rfl, rfl⟩
  | other payload =>
    simp only [step] at hstep
    split_ifs at hstep
    exact Option.some.inj hstep ▸ ⟨rfl, rfl⟩
  | send angle velocity dataType =>
    have hne : dataType ≠ .ping := by
      rintro rfl
      cases hl
    simp only [step] at hstep
    split_ifs at hstep
    obtain rfl := Option.some.inj hstep
    unfold sendMessage
    split
    · exact ⟨rfl, rfl⟩
    · exact ⟨if_neg hne, rfl⟩

theorem counts_of_receive (hstep : step c s (.receive : Label D F) = some t) :
    t.sent = s.sent ∧
      (t.echoes = s.echoes ∨ ∃ echo, t.echoes = s.echoes ++ [echo] ∧ echo.sent = s.sent) := by
  simp only [step, receiveMessage] at hstep
  split_ifs at hstep
  split at hstep
  · cases hstep
  · split at hstep <;> obtain rfl := Option.some.inj hstep
    · exact ⟨rfl, .inr ⟨_, rfl, rfl⟩⟩
    · exact ⟨rfl, .inl rfl⟩

end Counts

/-! ## The gaps between PINGs -/

/-- The times of PINGs that are further apart than the period. -/
def Spaced (times : List T) : Prop := times.IsChain fun a b => pingPeriod < b - a

theorem gap_of_spaced {times : List T} (h : Spaced times) {k n : ℕ} (hkn : k < n) {a b : T}
    (ha : times[k]? = some a) (hb : times[n]? = some b) :
    ((n - k : ℕ) : T) * pingPeriod < b - a := by
  induction n, hkn using Nat.le_induction generalizing b with
  | base =>
    obtain ⟨hlt, rfl⟩ := List.getElem?_eq_some_iff.mp hb
    obtain ⟨-, rfl⟩ := List.getElem?_eq_some_iff.mp ha
    simpa using List.IsChain.getElem h k hlt
  | succ n hkn ih =>
    obtain ⟨hlt, rfl⟩ := List.getElem?_eq_some_iff.mp hb
    have hbefore := ih (List.getElem?_eq_getElem (by omega))
    have hlast := List.IsChain.getElem h n hlt
    rw [Nat.succ_sub (by omega), Nat.cast_succ]
    linarith

/-- What is right about a latency. -/
def Trip.Sound (times : List T) (trip : Trip T) : Prop :=
  ∃ k sentAt, trip.echo.ping = some k ∧ times[k]? = some sentAt ∧ 0 ≤ trip.latency ∧
    trip.latency ≤ trip.received - sentAt ∧
    (trip.latency = trip.received - sentAt ↔ trip.echo.sent = k)

theorem Trip.Sound.append {times : List T} {trip : Trip T} (h : trip.Sound times) (t : T) :
    trip.Sound (times ++ [t]) := by
  obtain ⟨k, sentAt, hping, hsent, hrest⟩ := h
  have hlt := (List.getElem?_eq_some_iff.mp hsent).1
  exact ⟨k, sentAt, hping, (List.getElem?_append_left hlt).trans hsent, hrest⟩

/-- The latency of an echo, from the time of the last PING. -/
theorem sound_of_spaced {times : List T} (h : Spaced times) {echo : Echo} {k : ℕ} {last now : T}
    (hping : echo.ping = some k) (hk : k ≤ echo.sent)
    (hdifference : echo.difference = ((echo.sent - k : ℕ) : ℤ))
    (hlast : times[echo.sent]? = some last) (hnow : last ≤ now) :
    Trip.Sound times ⟨echo, now, now - last + (echo.difference : T) * pingPeriod⟩ := by
  have hperiod : (0 : T) < pingPeriod := by
    unfold pingPeriod
    positivity
  have hlt := (List.getElem?_eq_some_iff.mp hlast).1
  have hcast : (echo.difference : T) = ((echo.sent - k : ℕ) : T) := by
    rw [hdifference, Int.cast_natCast]
  refine ⟨k, times[k], hping, List.getElem?_eq_getElem _, ?_⟩
  simp only [hcast]
  have hcount : (0 : T) ≤ ((echo.sent - k : ℕ) : T) * pingPeriod := by positivity
  rcases hk.eq_or_lt with hsame | hbefore
  · rw [← hsame, List.getElem?_eq_getElem (by omega)] at hlast
    obtain rfl := Option.some.inj hlast
    have hzero : ((echo.sent - k : ℕ) : T) = 0 := by simp [hsame]
    rw [hzero, zero_mul, add_zero]
    exact ⟨by linarith, le_rfl, iff_of_true rfl hsame.symm⟩
  · have hgap := gap_of_spaced h hbefore (List.getElem?_eq_getElem (by omega)) hlast
    refine ⟨by linarith, by linarith, iff_of_false (fun heq => ?_) (by omega)⟩
    linarith

/-! ## Every session -/

theorem mem_dequeAppend {maxlen : ℕ} {l : List T} {x y : T} (h : y ∈ dequeAppend maxlen l x) :
    y ∈ l ∨ y = x := by
  simpa using List.mem_of_mem_drop h

theorem dequeAppend_ne_nil {maxlen : ℕ} (hpos : 0 < maxlen) (l : List T) (x : T) :
    dequeAppend maxlen l x ≠ [] := by
  unfold dequeAppend
  rw [Ne, List.drop_eq_nil_iff, List.length_append, List.length_singleton]
  omega

theorem average_le {l : List T} (hne : l ≠ []) {bound : T} (h : ∀ x ∈ l, x ≤ bound) :
    average l ≤ bound := by
  have hlen : (0 : T) < (l.length : T) := by
    exact_mod_cast List.length_pos_iff.mpr hne
  rw [average, div_le_iff₀ hlen, mul_comm, ← nsmul_eq_mul]
  exact List.sum_le_card_nsmul l bound h

namespace Session

/-- What holds between the steps. -/
structure Inv (s : Session T) : Prop where
  pings : Pings.Inv s.pings
  length : s.times.length = s.pings.sent + 1
  last : s.times.getLast? = some s.lastPingTime
  spaced : Spaced s.times
  now : s.lastPingTime ≤ s.now
  trips : ∀ trip ∈ s.trips, trip.Sound s.times
  latency : ∀ x ∈ s.latency, x = 0 ∨ ∃ trip ∈ s.trips, x = trip.latency
  shown : s.latency ≠ []

variable {D F : Type} [Zero D] [One D] [Zero F] [NatCast D] [IntCast D] [OfScientific D] [Add D]
  [Mul D] [LE D] [DecidableLE D] [Trig F D] [OfWord 64 D] [OfWord 32 F] [ToWord 64 D]
  {c : ℕ} {s s' : Session T}

theorem inv_initial (connected : Bool) (t : T) : (initial connected t).Inv where
  pings := Pings.inv_initial connected
  length := rfl
  last := rfl
  spaced := List.isChain_singleton t
  now := le_rfl
  trips := nofun
  latency _ hx := .inl (List.mem_singleton.mp hx)
  shown := List.cons_ne_nil _ _

/-- A step after which as many PINGs have been sent. -/
theorem Inv.keep (h : s.Inv) {pings : State} (hpings : Pings.Inv pings)
    (hsent : pings.sent = s.pings.sent) {now : T} (hnow : s.now ≤ now) :
    ({ s with pings, now } : Session T).Inv :=
  ⟨hpings, hsent ▸ h.length, h.last, h.spaced, h.now.trans hnow, h.trips, h.latency, h.shown⟩

theorem Inv.sendPing (h : s.Inv) {sent : T}
    (hshort : s.pings.client.connected = true → s.pings.client.lastPing < 65535)
    (hdue : pingPeriod < s.now - s.lastPingTime) (hnow : s.now ≤ sent)
    (hstep : sendPing D F c s sent = some s') : s'.Inv := by
  obtain ⟨pings, hpings, rfl⟩ := Option.map_eq_some_iff.mp hstep
  have hinv := Pings.inv_step h.pings
    (show Pings.Short s.pings (.send _ _ .ping : Label D F) from hshort) hpings
  obtain ⟨hsent, -⟩ := counts_of_ping h.pings hshort hpings
  by_cases hconnected : s.pings.client.connected = true
  · rw [if_pos ⟨hconnected, hinv.raised⟩]
    rw [hconnected] at hsent
    refine ⟨hinv, ?_, ?_, ?_, le_rfl, fun trip htrip => (h.trips trip htrip).append sent,
      h.latency, h.shown⟩
    · show (s.times ++ [sent]).length = pings.sent + 1
      rw [List.length_append, List.length_singleton, h.length, hsent]
      rfl
    · exact List.getLast?_concat
    · refine List.isChain_append.mpr ⟨h.spaced, List.isChain_singleton sent, fun a ha b hb => ?_⟩
      obtain rfl := Option.some.inj (h.last.symm.trans ha)
      obtain rfl : sent = b := by simpa using hb
      linarith
  · rw [if_neg fun hsends => hconnected hsends.1]
    rw [if_neg hconnected] at hsent
    exact h.keep hinv hsent le_rfl

theorem Inv.receiveEcho (h : s.Inv) {echo : Echo} (hecho : echo ∈ s.pings.echoes)
    (hsent : echo.sent = s.pings.sent) : (s.receiveEcho s.now echo).Inv := by
  obtain ⟨k, hk, hping, hdifference⟩ := h.pings.echoes echo hecho
  have hlast : s.times[echo.sent]? = some s.lastPingTime := by
    rw [← h.last, List.getLast?_eq_getElem?, h.length, hsent]
    rfl
  have hsound := sound_of_spaced h.spaced hping hk hdifference hlast h.now
  refine ⟨h.pings, h.length, h.last, h.spaced, h.now, fun trip htrip => ?_, fun x hx => ?_,
    dequeAppend_ne_nil (by decide) _ _⟩
  · rcases List.mem_append.mp htrip with hold | hnew
    · exact h.trips trip hold
    · exact List.mem_singleton.mp hnew ▸ hsound
  · rcases mem_dequeAppend hx with hold | rfl
    · rcases h.latency x hold with hzero | ⟨trip, htrip, hx⟩
      · exact .inl hzero
      · exact .inr ⟨trip, List.mem_append_left _ htrip, hx⟩
    · exact .inr ⟨_, List.mem_append_right _ (List.mem_singleton_self _), rfl⟩

theorem inv_step {l : SessionLabel D F T} (h : s.Inv) (hshort : s.Short l)
    (hstep : s.step c l = some s') : s'.Inv := by
  cases l with
  | ping tested sent =>
    simp only [step] at hstep
    split_ifs at hstep with hclock hdue
    · exact (h.keep h.pings rfl hclock.1).sendPing hshort hdue hclock.2 hstep
    · exact Option.some.inj hstep ▸ h.keep h.pings rfl hclock.1
  | other l =>
    simp only [step] at hstep
    split_ifs at hstep with hl
    obtain ⟨pings, hpings, rfl⟩ := Option.map_eq_some_iff.mp hstep
    have hother : Pings.Short s.pings l := by
      cases l with
      | send angle velocity dataType => cases dataType <;> trivial
      | _ => trivial
    exact h.keep (Pings.inv_step h.pings hother hpings) (counts_of_other hl hpings).1 le_rfl
  | receive now =>
    simp only [step] at hstep
    split_ifs at hstep with hclock
    obtain ⟨pings, hpings, rfl⟩ := Option.map_eq_some_iff.mp hstep
    obtain ⟨hsent, hechoes⟩ := counts_of_receive hpings
    have hkept := h.keep (Pings.inv_step h.pings
      (show Pings.Short s.pings (.receive : Label D F) from trivial) hpings) hsent hclock
    rcases hechoes with hsame | ⟨echo, hnew, hcount⟩
    · rw [hsame, List.drop_length]
      exact hkept
    · rw [hnew, List.drop_left]
      exact hkept.receiveEcho (hnew ▸ List.mem_append_right _ (List.mem_singleton_self _))
        (hcount.trans hsent.symm)

end Session

/-- **The latency.** In every session in which each PING is sent while the last id is below 65535,
every latency computed is at least zero and at most the time from the PING to its echo, and is that
time exactly when no other PING has been sent in between; so the average shown never exceeds a bound
of these times. -/
theorem latency_le_trip {D F : Type} [Zero D] [One D] [Zero F] [NatCast D] [IntCast D]
    [OfScientific D] [Add D] [Mul D] [LE D] [DecidableLE D] [Trig F D] [OfWord 64 D] [OfWord 32 F]
    [ToWord 64 D] (c : ℕ) (connected : Bool) (t : T) (s : Session T)
    (hreach : Lts.Reach (Session.step (D := D) (F := F) c) Session.Short (.initial connected t) s) :
    (∀ trip ∈ s.trips, trip.Sound s.times) ∧
    ∀ bound, 0 ≤ bound → (∀ trip ∈ s.trips, ∀ k sentAt, trip.echo.ping = some k →
      s.times[k]? = some sentAt → trip.received - sentAt ≤ bound) → average s.latency ≤ bound := by
  have hinv : s.Inv := hreach.invariant (Session.inv_initial connected t)
    fun _ _ _ h hshort hstep => Session.inv_step h hshort hstep
  refine ⟨hinv.trips, fun bound hbound htrips => average_le hinv.shown fun x hx => ?_⟩
  rcases hinv.latency x hx with rfl | ⟨trip, htrip, rfl⟩
  · exact hbound
  · obtain ⟨k, sentAt, hping, hsent, -, hle, -⟩ := hinv.trips trip htrip
    exact hle.trans (htrips trip htrip k sentAt hping hsent)

/-- The echo of the first PING comes when the second one has been sent. -/
def lateEcho : List (SessionLabel ℝ ℝ ℚ) :=
  [.ping 1 1, .other (.handle Rehash.front 0 (Game.initial ⟨[], 0, 0, [], []⟩) (.ofBytes [14, 1, 0])),
    .ping 2 2, .receive 3]

theorem latency_le_trip_lateEcho : ∃ s, Lts.run (Session.step 0) lateEcho (.initial true 0) = some s ∧
    s.trips.map Trip.received = [3] ∧ s.trips.map Trip.latency = [6 / 5] ∧
    ∀ trip ∈ s.trips, trip.Sound s.times := by
  have hrun : (Lts.run (Session.step 0) lateEcho (.initial true 0)).any (fun s =>
      s.trips.map Trip.received = [3] ∧ s.trips.map Trip.latency = [6 / 5]) = true := by
    decide +kernel
  obtain ⟨s, hs, htrips⟩ := (Option.any_eq_true _ _).mp hrun
  have halong : Lts.Along (Session.step 0) Session.Short lateEcho (.initial true 0) := by
    decide +kernel
  obtain ⟨hreceived, hlatency⟩ := of_decide_eq_true htrips
  exact ⟨s, hs, hreceived, hlatency, (latency_le_trip 0 true 0 s (.of_along hs halong)).1⟩

end Pings

end PRShooter
