import PRShooter.Framing
import PRShooter.Lts

/-!
# The client's end of the stream

The framing part of `receive_message` of `Client/client.py`, over a TCP stream that the network
cuts into pieces of its own choice. A step is a frame written by the server, the arrival of bytes,
or one `recv` of the client with the number of bytes it returns. The header is read once, without
blocking, and what it returns is taken for the whole header (`recvHeader`); the body is read in a
loop until it is complete.
-/

namespace PRShooter

namespace Client

open LittleEndian Framing

/-- Where the client is in `receive_message`. -/
inductive Receiving where
  /-- Outside, or at the non-blocking `recv(4)`. -/
  | header
  /-- In the loop `while len(rest) < size`, before `recv(size - len(rest))`. -/
  | body (size : ℕ) (rest : List UInt8)
  deriving DecidableEq

/-- The bytes on their way, the bytes that have arrived, and the client. `sent` and `decoded`
record the bodies the server has sent and those `receive_message` has got to the end of. -/
structure Stream where
  inFlight : List UInt8
  arrived : List UInt8
  receiving : Receiving
  sent : List (List UInt8)
  decoded : List (List UInt8)

/-- A step of the server, the network or the client. -/
inductive StreamLabel where
  | send (body : List UInt8)
  | arrive (n : ℕ)
  /-- The non-blocking `recv(4)` raises, and the call returns. -/
  | recvNothing
  /-- The non-blocking `recv(4)` returns `n` bytes. -/
  | recvHeader (n : ℕ)
  /-- `recv(size - len(rest))` returns `n` bytes. -/
  | recvBody (n : ℕ)

namespace Stream

def initial : Stream := ⟨[], [], .header, [], []⟩

/-- `recv(requested)` returns `n` bytes: at least one, and no more than have arrived. -/
def CanRecv (s : Stream) (requested n : ℕ) : Prop := 0 < n ∧ n ≤ requested ∧ n ≤ s.arrived.length

instance (s : Stream) (requested n : ℕ) : Decidable (s.CanRecv requested n) :=
  inferInstanceAs (Decidable (_ ∧ _ ∧ _))

/-- The test of the loop: go on, or take `rest` for the body. -/
def loop (s : Stream) (size : ℕ) (rest : List UInt8) : Stream :=
  if rest.length < size then { s with receiving := .body size rest }
  else { s with receiving := .header, decoded := s.decoded ++ [rest] }

/-- One step. -/
def step (s : Stream) : StreamLabel → Option Stream
  | .send body =>
    if Fits body then
      some { s with inFlight := s.inFlight ++ frame body, sent := s.sent ++ [body] }
    else none
  | .arrive n =>
    some { s with
      inFlight := s.inFlight.drop n
      arrived := s.arrived ++ s.inFlight.take n }
  | .recvNothing => if s.receiving = .header then some s else none
  | .recvHeader n =>
    match s.receiving with
    | .header =>
      if s.CanRecv 4 n then
        some (loop { s with arrived := s.arrived.drop n } (value (s.arrived.take n)) [])
      else none
    | .body .. => none
  | .recvBody n =>
    match s.receiving with
    | .header => none
    | .body size rest =>
      if s.CanRecv (size - rest.length) n then
        some (loop { s with arrived := s.arrived.drop n } size (rest ++ s.arrived.take n))
      else none

/-- The bytes the client has not read. -/
def unread (s : Stream) : List UInt8 := s.arrived ++ s.inFlight

/-- What has been decoded is a beginning of what was sent, and all of it when every byte has been
read. -/
def Exact (s : Stream) : Prop :=
  s.decoded <+: s.sent ∧ (s.receiving = .header → s.unread = [] → s.decoded = s.sent)

end Stream

/-- A header read that finds bytes returns all four. -/
def wholeHeader (_ : Stream) : StreamLabel → Prop
  | .recvHeader n => n = 4
  | _ => True

/-! ## Where the client is in the stream -/

namespace Stream

variable {s t : Stream}

/-- What is unread continues the stream where the client is: at the first frame not yet decoded,
or inside it. -/
def AtFrames (pending : List (List UInt8)) : Receiving → List UInt8 → Prop
  | .header, unread => unread = stream pending
  | .body size rest, unread => ∃ b more, pending = b :: more ∧ size = b.length ∧
      rest.length < size ∧ rest ++ unread = b ++ stream more

/-- The frames that are not decoded yet are what is left of the stream. -/
structure Aligned (s : Stream) (pending : List (List UInt8)) : Prop where
  sent : s.sent = s.decoded ++ pending
  fits : ∀ b ∈ pending, Fits b
  atFrames : AtFrames pending s.receiving s.unread

theorem aligned_initial : initial.Aligned [] := ⟨rfl, by simp, rfl⟩

/-- The loop at a frame whose beginning has been read. -/
theorem aligned_loop {b : List UInt8} {more : List (List UInt8)} {rest : List UInt8}
    (hsent : s.sent = s.decoded ++ b :: more) (hfits : ∀ c ∈ b :: more, Fits c)
    (hrest : rest ++ s.unread = b ++ stream more) (hle : rest.length ≤ b.length) :
    ∃ pending, (s.loop b.length rest).Aligned pending := by
  unfold loop
  split_ifs with hlt
  · exact ⟨b :: more, hsent, hfits, b, more, rfl, rfl, hlt, hrest⟩
  · obtain ⟨rfl, hunread⟩ := List.append_inj hrest (by omega)
    refine ⟨more, by simp [hsent], fun c hc => hfits c (by simp [hc]), hunread⟩

theorem aligned_send {pending : List (List UInt8)} {body : List UInt8} (h : s.Aligned pending)
    (hstep : s.step (.send body) = some t) : t.Aligned (pending ++ [body]) := by
  simp only [step] at hstep
  split_ifs at hstep with hfits
  obtain rfl := Option.some.inj hstep
  refine ⟨by simp [h.sent], ?_, ?_⟩
  · intro b hb
    rcases List.mem_append.mp hb with hb | hb
    · exact h.fits b hb
    · rwa [List.mem_singleton.mp hb]
  · have hat := h.atFrames
    have hunread : s.arrived ++ (s.inFlight ++ frame body) = s.unread ++ frame body := by
      simp [unread]
    show AtFrames (pending ++ [body]) s.receiving (s.arrived ++ (s.inFlight ++ frame body))
    rw [hunread]
    cases hr : s.receiving with
    | header =>
      rw [hr] at hat
      show s.unread ++ frame body = _
      rw [show s.unread = stream pending from hat, stream_append, stream_singleton]
    | body size rest =>
      rw [hr] at hat
      obtain ⟨b, more, rfl, hsize, hlt, hrest⟩ := hat
      refine ⟨b, more ++ [body], rfl, hsize, hlt, ?_⟩
      rw [stream_append, stream_singleton, ← List.append_assoc, hrest, List.append_assoc]

theorem unread_drop (n : ℕ) :
    s.unread = s.arrived.take n ++ ({ s with arrived := s.arrived.drop n } : Stream).unread := by
  simp [unread, ← List.append_assoc]

/-- Four bytes at a frame boundary are the header of the next frame. -/
theorem aligned_recvHeader {pending : List (List UInt8)} (h : s.Aligned pending)
    (hstep : s.step (.recvHeader 4) = some t) : ∃ pending', t.Aligned pending' := by
  simp only [step] at hstep
  split at hstep
  next hr =>
    split_ifs at hstep with hcan
    obtain rfl := Option.some.inj hstep
    have hunread : s.unread = stream pending := by simpa [AtFrames, hr] using h.atFrames
    have hlen : 4 ≤ s.arrived.length := hcan.2.2
    have hfour := unread_drop (s := s) 4
    cases pending with
    | nil =>
      rw [hunread] at hfour
      have := congrArg List.length hfour
      simp at this
      omega
    | cons b more =>
      have hfits := h.fits b (by simp)
      rw [hunread, stream_cons, frame, List.append_assoc] at hfour
      obtain ⟨hheader, hbody⟩ := List.append_inj hfour (by simp [hlen])
      rw [← hheader, value_bytes_of_lt hfits]
      exact aligned_loop h.sent h.fits hbody.symm (by simp)
  next => cases hstep

theorem aligned_recvBody {pending : List (List UInt8)} {n : ℕ} (h : s.Aligned pending)
    (hstep : s.step (.recvBody n) = some t) : ∃ pending', t.Aligned pending' := by
  simp only [step] at hstep
  split at hstep
  next => cases hstep
  next size rest hr =>
    split_ifs at hstep with hcan
    obtain rfl := Option.some.inj hstep
    have hat := h.atFrames
    rw [hr] at hat
    obtain ⟨b, more, rfl, rfl, hlt, hrest⟩ := hat
    refine aligned_loop h.sent h.fits ?_ ?_
    · rw [unread_drop n] at hrest
      rwa [List.append_assoc]
    · have : n ≤ b.length - rest.length := hcan.2.1
      rw [List.length_append, List.length_take]
      omega

/-- A step that reads no header in part keeps the client at the frames. -/
theorem aligned_step {l : StreamLabel} {pending : List (List UInt8)} (h : s.Aligned pending)
    (hok : wholeHeader s l) (hstep : s.step l = some t) : ∃ pending', t.Aligned pending' := by
  cases l with
  | send body => exact ⟨_, aligned_send h hstep⟩
  | arrive n =>
    obtain rfl := Option.some.inj hstep
    refine ⟨pending, h.sent, h.fits, ?_⟩
    have hunread : (s.arrived ++ s.inFlight.take n) ++ s.inFlight.drop n = s.unread := by
      simp [unread]
    show AtFrames pending s.receiving (s.arrived ++ s.inFlight.take n ++ s.inFlight.drop n)
    rw [hunread]
    exact h.atFrames
  | recvNothing =>
    unfold step at hstep
    split_ifs at hstep
    exact ⟨pending, Option.some.inj hstep ▸ h⟩
  | recvHeader n =>
    obtain rfl : n = 4 := hok
    exact aligned_recvHeader h hstep
  | recvBody n => exact aligned_recvBody h hstep

theorem Aligned.exact {pending : List (List UInt8)} (h : s.Aligned pending) : s.Exact := by
  refine ⟨h.sent ▸ List.prefix_append _ _, fun hr hnil => ?_⟩
  have hat := h.atFrames
  rw [hr, hnil] at hat
  cases pending with
  | nil => simpa using h.sent.symm
  | cons b more =>
    have := congrArg List.length (show [] = stream (b :: more) from hat)
    simp at this
    omega

/-! ## Everything is decoded in the end -/

/-- From a frame boundary at which everything has arrived the frames are decoded one by one. -/
theorem exists_decoded_of_header {pending : List (List UInt8)} (h : s.Aligned pending)
    (hr : s.receiving = .header) (harrived : s.inFlight = []) :
    ∃ t, Lts.Reach step wholeHeader s t ∧ t.sent = s.sent ∧ t.decoded = s.sent := by
  induction pending generalizing s with
  | nil => exact ⟨s, .refl, rfl, by simpa using h.sent.symm⟩
  | cons b more ih =>
    have hfits := h.fits b (by simp)
    have hbytes : s.arrived = bytes 4 b.length ++ (b ++ stream more) := by
      have hat := h.atFrames
      rw [hr] at hat
      simpa [AtFrames, unread, harrived, frame] using hat
    have hcan : s.CanRecv 4 4 := ⟨by decide, le_rfl, by rw [hbytes]; simp⟩
    -- the header, and the loop with the whole body arrived
    let u : Stream := { s with arrived := b ++ stream more, receiving := .header }
    have hheader : s.step (.recvHeader 4) = some (u.loop b.length []) := by
      have htake : s.arrived.take 4 = bytes 4 b.length := by
        rw [hbytes, List.take_left' (length_bytes 4 _)]
      have hdrop : s.arrived.drop 4 = b ++ stream more := by
        rw [hbytes, List.drop_left' (length_bytes 4 _)]
      simp only [step, hr]
      rw [if_pos hcan, htake, hdrop, value_bytes_of_lt hfits, ← hr]
      simp only [loop, u]
    let v : Stream :=
      { s with arrived := stream more, receiving := .header, decoded := s.decoded ++ [b] }
    have hbody : Lts.Reach step wholeHeader s v := by
      have hfirst := Lts.Reach.refl.tail (show wholeHeader s (.recvHeader 4) from rfl) hheader
      rcases b.eq_nil_or_concat with rfl | hne
      · exact hfirst
      · have hpos : 0 < b.length := by
          obtain ⟨b', c, rfl⟩ := hne
          simp
        refine hfirst.tail (i := .recvBody b.length) trivial ?_
        have hloop : u.loop b.length [] = { u with receiving := .body b.length [] } := if_pos hpos
        have hcan' : ({ u with receiving := .body b.length [] } : Stream).CanRecv
            (b.length - ([] : List UInt8).length) b.length := ⟨hpos, by simp, by simp [u]⟩
        rw [hloop]
        simp only [step]
        rw [if_pos hcan']
        simp [loop, u, v]
    have hv : v.Aligned more :=
      ⟨by simp [v, h.sent], fun c hc => h.fits c (by simp [hc]),
        by simp [AtFrames, unread, v, harrived]⟩
    obtain ⟨t, ht, hsent, hdecoded⟩ := ih hv rfl harrived
    exact ⟨t, hbody.trans ht, hsent, hdecoded⟩

/-- From every state the client gets to the end of what has been sent. -/
theorem exists_decoded {pending : List (List UInt8)} (h : s.Aligned pending) :
    ∃ t, Lts.Reach step wholeHeader s t ∧ t.sent = s.sent ∧ t.decoded = s.sent := by
  -- first everything arrives
  let u : Stream := { s with inFlight := [], arrived := s.unread }
  have harrive : s.step (.arrive s.inFlight.length) = some u := by simp [step, unread, u]
  have hu : u.Aligned pending := by
    refine ⟨h.sent, h.fits, ?_⟩
    show AtFrames pending s.receiving (s.unread ++ [])
    rw [List.append_nil]
    exact h.atFrames
  have hreach : Lts.Reach step wholeHeader s u :=
    Lts.Reach.refl.tail (i := .arrive s.inFlight.length) trivial harrive
  cases hr : s.receiving with
  | header =>
    obtain ⟨t, ht, hsent, hdecoded⟩ := exists_decoded_of_header hu hr rfl
    exact ⟨t, hreach.trans ht, hsent, hdecoded⟩
  | body size rest =>
    have hat := h.atFrames
    rw [hr] at hat
    obtain ⟨b, more, rfl, rfl, hlt, hrest⟩ := hat
    have hlen := congrArg List.length hrest
    rw [List.length_append, List.length_append] at hlen
    -- then the rest of the body is read at once
    have hcan : u.CanRecv (b.length - rest.length) (b.length - rest.length) := by
      refine ⟨by omega, le_rfl, ?_⟩
      show b.length - rest.length ≤ s.unread.length
      omega
    have hbody : u.step (.recvBody (b.length - rest.length))
        = some (loop { u with arrived := u.arrived.drop (b.length - rest.length) } b.length
          (rest ++ u.arrived.take (b.length - rest.length))) := by
      simp only [step, show u.receiving = .body b.length rest from hr]
      rw [if_pos hcan]
    obtain ⟨pending', hv⟩ := aligned_recvBody hu hbody
    have hend : ¬ (rest ++ u.arrived.take (b.length - rest.length)).length < b.length := by
      have hshort : b.length - rest.length ≤ u.arrived.length := hcan.2.2
      rw [List.length_append, List.length_take]
      omega
    unfold loop at hbody hv
    rw [if_neg hend] at hbody hv
    obtain ⟨t, ht, hsent, hdecoded⟩ := exists_decoded_of_header hv rfl rfl
    have hok : wholeHeader u (.recvBody (b.length - rest.length)) := trivial
    have hread := hreach.tail hok hbody
    exact ⟨t, hread.trans ht, hsent, hdecoded⟩

end Stream

/-- **Framing at the client.** In a run in which no header read returns a part of the header, the
client decodes exactly the bodies sent, in order, and can always get to the end of them. -/
theorem exact_of_reach {s : Stream} (h : Lts.Reach Stream.step wholeHeader Stream.initial s) :
    s.Exact ∧
      ∃ t, Lts.Reach Stream.step wholeHeader s t ∧ t.sent = s.sent ∧ t.decoded = s.sent := by
  obtain ⟨pending, haligned⟩ : ∃ pending, s.Aligned pending :=
    h.invariant (I := fun s => ∃ pending, s.Aligned pending) ⟨[], Stream.aligned_initial⟩
      fun _ _ _ ⟨_, hI⟩ hok hstep => Stream.aligned_step hI hok hstep
  exact ⟨haligned.exact, Stream.exists_decoded haligned⟩

/-- Two frames arrive in three pieces, cut inside the bodies. -/
def cutBodies : List StreamLabel :=
  [.send [2, 7, 7], .send [14, 1, 0], .arrive 5, .recvNothing, .recvHeader 4, .recvBody 1,
    .arrive 3, .recvBody 2, .arrive 6, .recvHeader 4, .recvBody 2, .recvBody 1]

theorem exact_of_reach_cutBodies : ∃ s, Lts.run Stream.step cutBodies Stream.initial = some s ∧
    s.decoded = [[2, 7, 7], [14, 1, 0]] ∧ s.Exact := by
  refine ⟨_, rfl, rfl, ?_⟩
  have halong : Lts.Along Stream.step wholeHeader cutBodies Stream.initial := by
    simp [cutBodies, Lts.Along, wholeHeader]
  exact (exact_of_reach (.of_along rfl halong)).1

/-- The first two bytes of a header arrive before the others: they are taken for the length, and
what follows for the body. -/
theorem header_cut : ¬ ∀ s, Lts.Reach Stream.step Lts.Any Stream.initial s → s.Exact := by
  intro h
  have hrun : Lts.run Stream.step
      [.send [14, 1, 0], .arrive 2, .recvHeader 2, .arrive 5, .recvBody 3] Stream.initial
      = some ⟨[], [1, 0], .header, [[14, 1, 0]], [[0, 0, 14]]⟩ := rfl
  have hprefix := (h _ (.of_run hrun)).1
  revert hprefix
  decide

end Client

end PRShooter
