import PRShooter.Client
import PRShooter.Framing
import PRShooter.Lts

/-!
# `receive_message` on a closed connection

`receive_message` of `Client/client.py` as a whole call, on a connection that the server closes
somewhere in its stream. `recv` on such a connection returns some of the bytes left, and the empty
byte string when there are none: the header read takes it for a header of length zero, and the body
loop for bytes that make no progress (`endsSafely_iff`).

What a call does for drawing alone is left out: the latencies, the offset of the picture and the
angle sent back to the server. The direction of the mouse pointer, which a call writes into the own
player of the game state, is a choice of the environment.
-/

namespace PRShooter

namespace Client

open LittleEndian Framing

/-! ## The call -/

/-- The fields of the client that `receive_message` reads and writes. -/
structure State where
  connected : Bool
  myOwnId : ℤ
  playerRadius : BitVec 64
  projectileRadius : BitVec 64
  map : Map
  gameState : GameState

/-- How a call ends. -/
inductive Outcome where
  | returned (n : ℕ)
  /-- `struct.unpack` raises. -/
  | raised
  deriving DecidableEq

/-- The dispatch on the type byte of `rest`, field by field: what has been assigned before an
exception stays. -/
def dispatch (aim : GameState → GameState) (self : State) (rest : List UInt8) : State × Outcome :=
  let type := value (rest.take 1)
  let rest := rest.drop 1
  match DataType.ofByte type with
  | .welcomeMessage =>
    let self := { self with myOwnId := value (rest.take 2) }
    match readDouble.run (rest.drop 2) with
    | none => (self, .raised)
    | some (playerRadius, rest) =>
      let self := { self with playerRadius }
      match readDouble.run rest with
      | none => (self, .raised)
      | some (projectileRadius, _) => ({ self with projectileRadius }, .returned 1)
  | .gameMap =>
    match getMapFromBytes.run rest with
    | none => (self, .raised)
    | some (map, _) => ({ self with map }, .returned 1)
  | .gameState =>
    match getGamestateFromBytes.run rest with
    | none => (self, .raised)
    | some (gameState, _) => ({ self with gameState := aim gameState }, .returned 1)
  | _ => (self, .returned 1)

/-- `recv(requested)` when `arrived` of the bytes left have arrived. It waits for the first of
them, and returns nothing when none is left. -/
def recv (requested arrived : ℕ) (left : List UInt8) : List UInt8 × List UInt8 :=
  (left.take (min requested (max 1 arrived)), left.drop (min requested (max 1 arrived)))

/-- The loop `while len(rest) < size`, for at most `fuel` tests of its condition. -/
def bodyLoop (size : ℕ) : ℕ → (ℕ → ℕ) → List UInt8 → List UInt8 →
    Option (List UInt8 × List UInt8)
  | 0, _, _, _ => none
  | fuel + 1, arrived, rest, left =>
    if rest.length < size then
      let (got, left) := recv (size - rest.length) (arrived 0) left
      bodyLoop size fuel (fun i => arrived (i + 1)) (rest ++ got) left
    else some (rest, left)

/-- The choices of the environment in a call. -/
structure Io where
  /-- The non-blocking `recv(4)` raises. -/
  blocked : Bool
  /-- How many bytes have arrived at `recv(4)`, and at each `recv` of the loop. -/
  header : ℕ
  body : ℕ → ℕ
  aim : GameState → GameState

/-- The client, the bytes that the server has sent before it closed the connection and that are not
read yet, and the bodies of the messages decoded so far. -/
structure Session where
  client : State
  left : List UInt8
  decoded : List (List UInt8)

namespace Session

/-- What `receive_message` does behind the loop. -/
def finish (aim : GameState → GameState) (s : Session) (read : List UInt8 × List UInt8) :
    Session × Outcome :=
  let (client, outcome) := dispatch aim s.client read.1
  let decoded := if outcome = .raised then s.decoded else s.decoded ++ [read.1]
  ({ client, left := read.2, decoded }, outcome)

/-- `receive_message`; `none` if the loop is not done within `fuel` tests. -/
def receiveMessage (fuel : ℕ) (io : Io) (s : Session) : Option (Session × Outcome) :=
  if s.client.connected = false then some (s, .returned 0)
  else if io.blocked = true then some (s, .returned 0)
  else
    let (val, left) := recv 4 io.header s.left
    (bodyLoop (value val) fuel io.body [] left).map (s.finish io.aim)

/-- One call as a step. -/
def step (s : Session) (label : ℕ × Io) : Option Session :=
  (s.receiveMessage label.1 label.2).map Prod.fst

/-- A header read that is not turned away returns four bytes, or all that are left. -/
def WholeHeader (s : Session) (io : Io) : Prop :=
  io.blocked = true ∨ (recv 4 io.header s.left).1 = s.left.take 4

end Session

/-! ## What the server has sent -/

/-- The bodies of the frames that are complete in the first `k` bytes of the stream. -/
def sentCompletely : List (List UInt8) → ℕ → List (List UInt8)
  | [], _ => []
  | body :: bodies, k =>
    if 4 + body.length ≤ k then body :: sentCompletely bodies (k - (4 + body.length)) else []

/-- What the first `k` bytes contain of the frame after these. -/
def cutOff : List (List UInt8) → ℕ → List UInt8
  | [], _ => []
  | body :: bodies, k =>
    if 4 + body.length ≤ k then cutOff bodies (k - (4 + body.length)) else (frame body).take k

theorem take_stream (bodies : List (List UInt8)) (k : ℕ) :
    (stream bodies).take k = stream (sentCompletely bodies k) ++ cutOff bodies k := by
  induction bodies generalizing k with
  | nil => simp [sentCompletely, cutOff]
  | cons body bodies ih =>
    rw [stream_cons, List.take_append, length_frame, ih, sentCompletely, cutOff]
    split_ifs with hfits
    · rw [List.take_of_length_le (by simpa using hfits), stream_cons, List.append_assoc]
    · have hnone : k - (4 + body.length) = 0 := by omega
      rw [hnone]
      cases bodies <;> simp [sentCompletely, cutOff]

theorem prefix_sentCompletely (bodies : List (List UInt8)) (k : ℕ) :
    sentCompletely bodies k <+: bodies := by
  induction bodies generalizing k with
  | nil => exact List.prefix_refl _
  | cons body bodies ih =>
    unfold sentCompletely
    split_ifs
    · exact (List.prefix_cons_inj body).mpr (ih _)
    · exact List.nil_prefix

/-- What is cut off contains no whole frame. -/
theorem truncated_cutOff {bodies : List (List UInt8)} (h : ∀ body ∈ bodies, Fits body) (k : ℕ) :
    Truncated (cutOff bodies k) := by
  induction bodies generalizing k with
  | nil => exact truncated_nil
  | cons body bodies ih =>
    unfold cutOff
    split_ifs with hfits
    · exact ih (fun b hb => h b (by simp [hb])) _
    · by_cases hheader : k < 4
      · left
        rw [List.length_take]
        omega
      · right
        have htake : ((frame body).take k).take 4 = bytes 4 body.length := by
          rw [List.take_take, min_eq_left (by omega), frame, List.take_left' (length_bytes 4 _)]
        rw [htake, value_bytes_of_lt (h body (by simp)), List.length_take, length_frame]
        omega

/-! ## The body loop -/

section Loop

variable {size : ℕ}

/-- Without enough bytes the loop never ends: an empty read makes no progress. -/
theorem bodyLoop_short (fuel : ℕ) (arrived : ℕ → ℕ) {rest left : List UInt8}
    (h : rest.length + left.length < size) : bodyLoop size fuel arrived rest left = none := by
  induction fuel generalizing arrived rest left with
  | zero => rfl
  | succ fuel ih =>
    unfold bodyLoop
    rw [if_pos (by omega)]
    refine ih _ ?_
    simp only [List.length_append, List.length_take, List.length_drop]
    omega

/-- What the loop has read when it ends. -/
theorem bodyLoop_eq_some {fuel : ℕ} {arrived : ℕ → ℕ} {rest left : List UInt8}
    {r : List UInt8 × List UInt8} (hrest : rest.length ≤ size)
    (h : bodyLoop size fuel arrived rest left = some r) :
    r = (rest ++ left.take (size - rest.length), left.drop (size - rest.length)) := by
  induction fuel generalizing arrived rest left with
  | zero => cases h
  | succ fuel ih =>
    unfold bodyLoop at h
    split_ifs at h with hlt
    · set n := min (size - rest.length) (max 1 (arrived 0)) with hn
      have hshort : (rest ++ left.take n).length ≤ size := by
        rw [List.length_append, List.length_take]
        omega
      have hnext : bodyLoop size fuel (fun i => arrived (i + 1)) (rest ++ left.take n)
          (left.drop n) = some r := h
      rw [ih hshort hnext, List.length_append, List.append_assoc]
      by_cases hleft : n ≤ left.length
      · have hsplit : size - rest.length = n + (size - (rest.length + n)) := by omega
        rw [List.length_take, min_eq_left hleft, hsplit, List.take_add, List.drop_drop]
      · have hn' : left.length ≤ n := by omega
        have hsize : left.length ≤ size - rest.length := by omega
        rw [List.take_of_length_le hn', List.drop_of_length_le hn', List.take_of_length_le hsize,
          List.drop_of_length_le hsize, List.take_nil, List.drop_nil, List.append_nil]
    · have hfull : size - rest.length = 0 := by omega
      obtain rfl := Option.some.inj h
      rw [hfull, List.take_zero, List.append_nil, List.drop_zero]

/-- With enough bytes the loop ends: every read makes progress. -/
theorem exists_bodyLoop (arrived : ℕ → ℕ) {rest left : List UInt8}
    (h : size ≤ rest.length + left.length) :
    ∃ fuel, (bodyLoop size fuel arrived rest left).isSome := by
  induction hm : size - rest.length using Nat.strong_induction_on generalizing arrived rest left with
  | _ m ih =>
    by_cases hlt : rest.length < size
    · set n := min (size - rest.length) (max 1 (arrived 0)) with hn
      have hlength : (rest ++ left.take n).length = rest.length + n := by
        rw [List.length_append, List.length_take]
        omega
      have hleft : size ≤ (rest ++ left.take n).length + (left.drop n).length := by
        rw [hlength, List.length_drop]
        omega
      obtain ⟨fuel, hfuel⟩ := ih (size - (rest.length + n)) (by omega)
        (fun i => arrived (i + 1)) hleft (by rw [hlength])
      refine ⟨fuel + 1, ?_⟩
      unfold bodyLoop
      rw [if_pos hlt]
      exact hfuel
    · exact ⟨1, by rw [bodyLoop, if_neg hlt]; rfl⟩

end Loop

/-! ## The id a body sets -/

/-- The id that a body taken for a WELCOME sets; without a type byte it is taken for one. -/
def welcomeId (body : List UInt8) : Option ℕ :=
  if value (body.take 1) = 0 then some (value ((body.drop 1).take 2)) else none

/-- The own id after some bodies. -/
def ownIdAfter (id : ℤ) (bodies : List (List UInt8)) : ℤ :=
  bodies.foldl (fun id body => (welcomeId body).elim id Nat.cast) id

theorem ofByte_eq_welcome {n : ℕ} : DataType.ofByte n = .welcomeMessage ↔ n = 0 := by
  constructor
  · intro h
    unfold DataType.ofByte at h
    split at h
    all_goals first | rfl | exact absurd h (by decide)
  · rintro rfl
    rfl

theorem dispatch_myOwnId (aim : GameState → GameState) (self : State) (rest : List UInt8) :
    (dispatch aim self rest).1.myOwnId = (welcomeId rest).elim self.myOwnId Nat.cast := by
  unfold dispatch welcomeId
  dsimp only
  by_cases htype : value (rest.take 1) = 0
  · rw [if_pos htype, ofByte_eq_welcome.mpr htype]
    dsimp only
    split
    · rfl
    · split <;> rfl
  · rw [if_neg htype]
    have hne := mt ofByte_eq_welcome.mp htype
    revert hne
    cases DataType.ofByte (value (rest.take 1)) with
    | welcomeMessage =>
      intro hne
      exact absurd rfl hne
    | gameMap | gameState =>
      intro _
      dsimp only
      split <;> rfl
    | spawn | shoot | changeOrientation | changeMovementDirection | ping | other =>
      intro _
      exact rfl

theorem dispatch_connected (aim : GameState → GameState) (self : State) (rest : List UInt8) :
    (dispatch aim self rest).1.connected = self.connected := by
  unfold dispatch
  dsimp only
  split
  · split
    · rfl
    · split <;> rfl
  · split <;> rfl
  · split <;> rfl
  · rfl

/-! ## One call -/

namespace Session

variable {s t : Session} {io : Io} {fuel : ℕ} {o : Outcome}

theorem recv_of_wholeHeader (h : s.WholeHeader io) (hblocked : io.blocked = false) :
    recv 4 io.header s.left = (s.left.take 4, s.left.drop 4) := by
  have htake : s.left.take (min 4 (max 1 io.header)) = s.left.take 4 := by
    rcases h with h | h
    · rw [h] at hblocked
      cases hblocked
    · exact h
  refine Prod.ext htake ?_
  have hlength := congrArg List.length htake
  rw [List.length_take, List.length_take] at hlength
  show s.left.drop (min 4 (max 1 io.header)) = s.left.drop 4
  by_cases hfour : min 4 (max 1 io.header) = 4
  · rw [hfour]
  · rw [List.drop_of_length_le (by omega), List.drop_of_length_le (by omega)]

/-- A call that gets a whole header goes on to the loop. -/
theorem receiveMessage_eq (hconnected : s.client.connected = true) (h : s.WholeHeader io)
    (hblocked : io.blocked = false) (fuel : ℕ) :
    s.receiveMessage fuel io =
      (bodyLoop (value (s.left.take 4)) fuel io.body [] (s.left.drop 4)).map (s.finish io.aim) := by
  unfold receiveMessage
  rw [if_neg (by rw [hconnected]; decide), if_neg (by rw [hblocked]; decide),
    recv_of_wholeHeader h hblocked]

theorem receiveMessage_blocked (hconnected : s.client.connected = true) (h : io.blocked = true)
    (fuel : ℕ) : s.receiveMessage fuel io = some (s, .returned 0) := by
  unfold receiveMessage
  rw [if_neg (by rw [hconnected]; decide), if_pos h]

section Frame

variable {body left : List UInt8}

theorem header_frame (hfits : Fits body) (hleft : s.left = frame body ++ left) :
    value (s.left.take 4) = body.length ∧ s.left.drop 4 = body ++ left := by
  constructor
  · rw [hleft, value_header hfits]
  · rw [hleft, frame, List.append_assoc, List.drop_left' (length_bytes 4 _)]

/-- At a whole frame the call reads its body. -/
theorem receiveMessage_frame (hconnected : s.client.connected = true) (h : s.WholeHeader io)
    (hblocked : io.blocked = false) (hfits : Fits body) (hleft : s.left = frame body ++ left)
    (hcall : s.receiveMessage fuel io = some (t, o)) : (t, o) = s.finish io.aim (body, left) := by
  obtain ⟨hsize, hrest⟩ := header_frame hfits hleft
  rw [receiveMessage_eq hconnected h hblocked, hsize, hrest] at hcall
  obtain ⟨read, hloop, hread⟩ := Option.map_eq_some_iff.mp hcall
  have hbody := bodyLoop_eq_some (Nat.zero_le _) hloop
  rw [List.length_nil, Nat.sub_zero, List.nil_append, List.take_left' rfl, List.drop_left' rfl]
    at hbody
  rw [← hread, hbody]

theorem exists_receiveMessage_frame (hconnected : s.client.connected = true)
    (h : s.WholeHeader io) (hblocked : io.blocked = false) (hfits : Fits body)
    (hleft : s.left = frame body ++ left) :
    ∃ fuel, s.receiveMessage fuel io = some (s.finish io.aim (body, left)) := by
  obtain ⟨hsize, hrest⟩ := header_frame hfits hleft
  have henough : body.length ≤ ([] : List UInt8).length + (body ++ left).length := by simp
  obtain ⟨fuel, hfuel⟩ := exists_bodyLoop io.body henough
  obtain ⟨read, hloop⟩ := Option.isSome_iff_exists.mp hfuel
  have hcall : s.receiveMessage fuel io = some (s.finish io.aim read) := by
    rw [receiveMessage_eq hconnected h hblocked, hsize, hrest, hloop]
    rfl
  exact ⟨fuel, hcall.trans (congrArg some
    (receiveMessage_frame hconnected h hblocked hfits hleft hcall))⟩

end Frame

/-- Where no frame is complete, a header that spells a length is followed by an endless loop. -/
theorem receiveMessage_endless (hconnected : s.client.connected = true) (h : s.WholeHeader io)
    (hblocked : io.blocked = false) (htruncated : Truncated s.left)
    (hsize : value (s.left.take 4) ≠ 0) (fuel : ℕ) : s.receiveMessage fuel io = none := by
  rw [receiveMessage_eq hconnected h hblocked, bodyLoop_short]
  · rfl
  · rw [List.length_nil, List.length_drop]
    rcases htruncated with hshort | hshort <;> omega

/-- And a header that spells zero by the body of a WELCOME that was never sent. -/
theorem receiveMessage_phantom (hconnected : s.client.connected = true) (h : s.WholeHeader io)
    (hblocked : io.blocked = false) (htruncated : Truncated s.left)
    (hsize : value (s.left.take 4) = 0) (fuel : ℕ) :
    s.receiveMessage (fuel + 1) io =
      some (⟨{ s.client with myOwnId := 0 }, [], s.decoded⟩, .raised) := by
  have hend : s.left.drop 4 = [] := by
    unfold Truncated at htruncated
    rw [hsize, add_zero, or_self] at htruncated
    exact List.drop_of_length_le (by omega)
  rw [receiveMessage_eq hconnected h hblocked, hsize, hend]
  rfl

/-- At the end of the stream a call that is not turned away never returns. -/
theorem outcome_of_truncated (hconnected : s.client.connected = true) (h : s.WholeHeader io)
    (hblocked : io.blocked = false) (htruncated : Truncated s.left)
    (hcall : s.receiveMessage fuel io = some (t, o)) :
    o = .raised ∧ t = ⟨{ s.client with myOwnId := 0 }, [], s.decoded⟩ := by
  by_cases hsize : value (s.left.take 4) = 0
  · cases fuel with
    | zero =>
      rw [receiveMessage_eq hconnected h hblocked] at hcall
      cases hcall
    | succ fuel =>
      rw [receiveMessage_phantom hconnected h hblocked htruncated hsize] at hcall
      obtain ⟨rfl, rfl⟩ := Prod.mk.inj (Option.some.inj hcall)
      exact ⟨rfl, rfl⟩
  · rw [receiveMessage_endless hconnected h hblocked htruncated hsize] at hcall
    cases hcall

/-! ## Runs -/

/-- The server has closed the connection behind the first `k` bytes of its frames. -/
def start (client : State) (frames : List (List UInt8)) (k : ℕ) : Session :=
  ⟨client, (stream frames).take k, []⟩

/-- The state is reached by calls that get whole headers. -/
def ReachedBy (client : State) (frames : List (List UInt8)) (k : ℕ) : Session → Prop :=
  Lts.Reach step (fun s label => s.WholeHeader label.2) (start client frames k)

/-- Every call ends, what is decoded has been sent completely, and behind the last complete frame the
own id, the map and the game state stay as they are. -/
structure EndsSafely (client : State) (frames : List (List UInt8)) (k : ℕ) : Prop where
  terminates : ∀ s, ReachedBy client frames k s → ∀ io, s.WholeHeader io →
    ∃ fuel, (s.receiveMessage fuel io).isSome
  decoded : ∀ s, ReachedBy client frames k s → s.decoded.Sublist (sentCompletely frames k)
  unchanged : ∀ s, ReachedBy client frames k s → Truncated s.left →
    ∀ fuel io t o, s.WholeHeader io → s.receiveMessage fuel io = some (t, o) →
      t.client.myOwnId = s.client.myOwnId ∧ t.client.map = s.client.map ∧
        t.client.gameState = s.client.gameState

variable {client : State} {frames : List (List UInt8)} {k : ℕ}

/-- `done` has been read, and `rest` and the frame that is cut off are left. -/
structure AtFrame (client : State) (frames : List (List UInt8)) (k : ℕ)
    (done rest : List (List UInt8)) (s : Session) : Prop where
  connected : s.client.connected = true
  sent : sentCompletely frames k = done ++ rest
  left : s.left = stream rest ++ cutOff frames k
  ownId : s.client.myOwnId = ownIdAfter client.myOwnId done
  decoded : s.decoded.Sublist done

/-- The client has read past the last complete frame. -/
structure AtEnd (frames : List (List UInt8)) (k : ℕ) (s : Session) : Prop where
  connected : s.client.connected = true
  left : s.left = []
  ownId : s.client.myOwnId = 0
  decoded : s.decoded.Sublist (sentCompletely frames k)

theorem atFrame_start (hconnected : client.connected = true) :
    (start client frames k).AtFrame client frames k [] (sentCompletely frames k) :=
  ⟨hconnected, rfl, take_stream frames k, rfl, List.nil_sublist _⟩

/-- The state behind the loop is at the next frame. -/
theorem AtFrame.finish {done rest : List (List UInt8)} {body : List UInt8}
    (h : s.AtFrame client frames k done (body :: rest)) (aim : GameState → GameState) :
    (s.finish aim (body, stream rest ++ cutOff frames k)).1.AtFrame client frames k
      (done ++ [body]) rest where
  connected := (dispatch_connected aim s.client body).trans h.connected
  sent := by rw [h.sent, List.append_assoc, List.singleton_append]
  left := rfl
  ownId := by
    refine (dispatch_myOwnId aim s.client body).trans ?_
    rw [h.ownId, ownIdAfter, ownIdAfter, List.foldl_append]
    rfl
  decoded := by
    show (if _ then s.decoded else s.decoded ++ [body]).Sublist (done ++ [body])
    split_ifs
    · exact h.decoded.trans (List.sublist_append_left done [body])
    · exact h.decoded.append (List.Sublist.refl [body])

theorem atEnd_of_truncated (hconnected : s.client.connected = true) (hwhole : s.WholeHeader io)
    (hblocked : io.blocked = false) (htruncated : Truncated s.left)
    (hdecoded : s.decoded.Sublist (sentCompletely frames k))
    (hcall : s.receiveMessage fuel io = some (t, o)) : t.AtEnd frames k := by
  obtain ⟨-, rfl⟩ := outcome_of_truncated hconnected hwhole hblocked htruncated hcall
  exact ⟨hconnected, rfl, rfl, hdecoded⟩

/-- A state of a run: before a frame, or past the last complete one. -/
def Located (client : State) (frames : List (List UInt8)) (k : ℕ) (s : Session) : Prop :=
  (∃ done rest, s.AtFrame client frames k done rest) ∨ s.AtEnd frames k

theorem Located.connected (h : s.Located client frames k) : s.client.connected = true := by
  rcases h with ⟨_, _, h⟩ | h
  · exact h.connected
  · exact h.connected

theorem Located.decoded (h : s.Located client frames k) :
    s.decoded.Sublist (sentCompletely frames k) := by
  rcases h with ⟨done, rest, h⟩ | h
  · rw [h.sent]
    exact h.decoded.trans (List.sublist_append_left done rest)
  · exact h.decoded

theorem AtFrame.fits {done rest : List (List UInt8)} (hfits : ∀ body ∈ frames, Fits body)
    (h : s.AtFrame client frames k done rest) : ∀ body ∈ rest, Fits body := by
  intro body hbody
  refine hfits body ((prefix_sentCompletely frames k).subset ?_)
  rw [h.sent]
  exact List.mem_append_right done hbody

theorem located_step (hfits : ∀ body ∈ frames, Fits body) (h : s.Located client frames k)
    (hwhole : s.WholeHeader io) (hstep : s.step (fuel, io) = some t) : t.Located client frames k := by
  obtain ⟨⟨u, o⟩, hcall, rfl⟩ := Option.map_eq_some_iff.mp hstep
  cases hblocked : io.blocked with
  | true =>
    rw [receiveMessage_blocked h.connected hblocked] at hcall
    obtain ⟨rfl, rfl⟩ := Prod.mk.inj (Option.some.inj hcall)
    exact h
  | false =>
    rcases h with ⟨done, rest, h⟩ | h
    · cases rest with
      | nil =>
        have htruncated : Truncated s.left := by
          rw [h.left]
          exact truncated_cutOff hfits k
        have hdecoded : s.decoded.Sublist (sentCompletely frames k) := by
          rw [h.sent, List.append_nil]
          exact h.decoded
        exact .inr (atEnd_of_truncated h.connected hwhole hblocked htruncated hdecoded hcall)
      | cons body rest =>
        have hleft : s.left = frame body ++ (stream rest ++ cutOff frames k) := by
          rw [h.left, stream_cons, List.append_assoc]
        have hread := receiveMessage_frame h.connected hwhole hblocked
          (h.fits hfits body List.mem_cons_self) hleft hcall
        refine .inl ⟨done ++ [body], rest, ?_⟩
        rw [show u = _ from congrArg Prod.fst hread]
        exact h.finish io.aim
    · have htruncated : Truncated s.left := by
        rw [h.left]
        exact truncated_nil
      exact .inr (atEnd_of_truncated h.connected hwhole hblocked htruncated h.decoded hcall)

theorem located_of_reached (hfits : ∀ body ∈ frames, Fits body)
    (hconnected : client.connected = true) (h : ReachedBy client frames k s) :
    s.Located client frames k :=
  h.invariant (.inl ⟨[], _, atFrame_start hconnected⟩)
    fun _ _ _ hI hwhole hstep => located_step hfits hI hwhole hstep

/-- Everything has arrived, and the connection is known to be closed. -/
def arrived : Io := ⟨false, 4, fun _ => 1, id⟩

theorem wholeHeader_arrived (s : Session) : s.WholeHeader arrived := .inr rfl

/-- The client gets to the end of what was sent completely. -/
theorem exists_atFrame_nil (hfits : ∀ body ∈ frames, Fits body)
    (hconnected : client.connected = true) :
    ∃ s, ReachedBy client frames k s ∧
      s.AtFrame client frames k (sentCompletely frames k) [] := by
  have hgo : ∀ (rest done : List (List UInt8)) (s : Session), ReachedBy client frames k s →
      s.AtFrame client frames k done rest → ∃ t, ReachedBy client frames k t ∧
        t.AtFrame client frames k (done ++ rest) [] := by
    intro rest
    induction rest with
    | nil =>
      intro done s hreached h
      rw [List.append_nil]
      exact ⟨s, hreached, h⟩
    | cons body rest ih =>
      intro done s hreached h
      have hleft : s.left = frame body ++ (stream rest ++ cutOff frames k) := by
        rw [h.left, stream_cons, List.append_assoc]
      obtain ⟨fuel, hcall⟩ := exists_receiveMessage_frame h.connected (wholeHeader_arrived s) rfl
        (h.fits hfits body List.mem_cons_self) hleft
      have hnext := hreached.tail (i := (fuel, arrived)) (wholeHeader_arrived s)
        (show s.step (fuel, arrived) = some _ by rw [step, hcall]; rfl)
      obtain ⟨t, ht, hend⟩ := ih _ _ hnext (h.finish arrived.aim)
      rw [List.append_assoc] at hend
      exact ⟨t, ht, hend⟩
  exact hgo _ [] _ .refl (atFrame_start hconnected)

/-- Where no frame is complete the client is behind the last one. -/
theorem Located.ownId (hfits : ∀ body ∈ frames, Fits body) (h : s.Located client frames k)
    (htruncated : Truncated s.left)
    (hzero : ownIdAfter client.myOwnId (sentCompletely frames k) = 0) : s.client.myOwnId = 0 := by
  rcases h with ⟨done, rest, h⟩ | h
  · cases rest with
    | nil =>
      have hsent := h.sent
      rw [List.append_nil] at hsent
      rw [h.ownId, ← hsent]
      exact hzero
    | cons body rest =>
      rw [h.left, stream_cons, List.append_assoc] at htruncated
      exact absurd htruncated (not_truncated_frame (h.fits hfits body List.mem_cons_self) _)
  · exact h.ownId

theorem Located.exists_call (hfits : ∀ body ∈ frames, Fits body) (h : s.Located client frames k)
    (hzero : value ((cutOff frames k).take 4) = 0) (hwhole : s.WholeHeader io) :
    ∃ fuel, (s.receiveMessage fuel io).isSome := by
  cases hblocked : io.blocked with
  | true => exact ⟨0, by rw [receiveMessage_blocked h.connected hblocked]; rfl⟩
  | false =>
    rcases h with ⟨done, rest, h⟩ | h
    · cases rest with
      | nil =>
        have hleft : s.left = cutOff frames k := h.left
        have hphantom := receiveMessage_phantom h.connected hwhole hblocked
          (hleft ▸ truncated_cutOff hfits k) (hleft ▸ hzero) 0
        exact ⟨1, by rw [hphantom]; rfl⟩
      | cons body rest =>
        have hleft : s.left = frame body ++ (stream rest ++ cutOff frames k) := by
          rw [h.left, stream_cons, List.append_assoc]
        obtain ⟨fuel, hcall⟩ := exists_receiveMessage_frame h.connected hwhole hblocked
          (h.fits hfits body List.mem_cons_self) hleft
        exact ⟨fuel, by rw [hcall]; rfl⟩
    · have hphantom := receiveMessage_phantom h.connected hwhole hblocked
        (h.left ▸ truncated_nil) (by rw [h.left]; rfl) 0
      exact ⟨1, by rw [hphantom]; rfl⟩

theorem endsSafely_of_zero (hfits : ∀ body ∈ frames, Fits body)
    (hconnected : client.connected = true) (hzero : value ((cutOff frames k).take 4) = 0)
    (hid : ownIdAfter client.myOwnId (sentCompletely frames k) = 0) :
    EndsSafely client frames k where
  terminates _ hs _ hwhole :=
    (located_of_reached hfits hconnected hs).exists_call hfits hzero hwhole
  decoded _ hs := (located_of_reached hfits hconnected hs).decoded
  unchanged s hs htruncated fuel io t o hwhole hcall := by
    have hlocated := located_of_reached hfits hconnected hs
    cases hblocked : io.blocked with
    | true =>
      rw [receiveMessage_blocked hlocated.connected hblocked] at hcall
      obtain ⟨rfl, rfl⟩ := Prod.mk.inj (Option.some.inj hcall)
      exact ⟨rfl, rfl, rfl⟩
    | false =>
      obtain ⟨-, rfl⟩ :=
        outcome_of_truncated hlocated.connected hwhole hblocked htruncated hcall
      exact ⟨(hlocated.ownId hfits htruncated hid).symm, rfl, rfl⟩

theorem zero_of_endsSafely (hfits : ∀ body ∈ frames, Fits body)
    (hconnected : client.connected = true) (h : EndsSafely client frames k) :
    value ((cutOff frames k).take 4) = 0 ∧
      ownIdAfter client.myOwnId (sentCompletely frames k) = 0 := by
  -- the first call behind the last complete frame decides
  obtain ⟨s, hs, hend⟩ := exists_atFrame_nil (k := k) hfits hconnected
  have hleft : s.left = cutOff frames k := hend.left
  have htruncated : Truncated s.left := hleft ▸ truncated_cutOff hfits k
  have hwhole := wholeHeader_arrived s
  have hzero : value (s.left.take 4) = 0 := by
    by_contra hsize
    obtain ⟨fuel, hcall⟩ := h.terminates s hs arrived hwhole
    rw [receiveMessage_endless hend.connected hwhole rfl htruncated hsize] at hcall
    cases hcall
  refine ⟨hleft ▸ hzero, ?_⟩
  have hphantom := receiveMessage_phantom hend.connected hwhole rfl htruncated hzero 0
  rw [← hend.ownId]
  exact (h.unchanged s hs htruncated 1 arrived _ _ hwhole hphantom).1.symm

/-- **End of stream.** The calls end safely exactly when the bytes left behind the last complete frame
spell no length and the own id is zero anyway. In no case does a call return there: it loops for
ever, or raises. -/
theorem endsSafely_iff (hfits : ∀ body ∈ frames, Fits body) (hconnected : client.connected = true) :
    (EndsSafely client frames k ↔ value ((cutOff frames k).take 4) = 0 ∧
        ownIdAfter client.myOwnId (sentCompletely frames k) = 0) ∧
      ∀ s, ReachedBy client frames k s → Truncated s.left → ∀ fuel io t o, s.WholeHeader io →
        io.blocked = false → s.receiveMessage fuel io = some (t, o) → o = .raised := by
  refine ⟨⟨zero_of_endsSafely hfits hconnected,
    fun h => endsSafely_of_zero hfits hconnected h.1 h.2⟩, ?_⟩
  intro s hs htruncated fuel io t o hwhole hblocked hcall
  have hlocated := located_of_reached hfits hconnected hs
  exact (outcome_of_truncated hlocated.connected hwhole hblocked htruncated hcall).1

end Session

/-- The client after `__init__` and a successful `connect`. -/
def State.initial : State :=
  { connected := true, myOwnId := -1, playerRadius := 0x4024000000000000,
    projectileRadius := 0x4000000000000000, map := ⟨[], [], []⟩, gameState := ⟨[], []⟩ }

/-- The WELCOME of client 5, whose radii are 30 and 4. -/
def welcomeFive : List UInt8 :=
  [0, 5, 0, 0, 0, 0, 0, 0, 0, 62, 64, 0, 0, 0, 0, 0, 0, 16, 64]

/-- A server that closes the connection in the body of the WELCOME leaves the client in the loop. -/
theorem endsSafely_iff_cut : ¬ Session.EndsSafely .initial [welcomeFive] 9 := by
  intro h
  have hsafe := (Session.endsSafely_iff (by decide) rfl).1.mp h
  exact absurd hsafe.1 (by decide)

/-- A server that sends the WELCOME and closes the connection makes the client forget its id. -/
theorem forgets_id : ¬ ∀ (client : State) (frames : List (List UInt8)) (k : ℕ),
    (∀ body ∈ frames, Fits body) → client.connected = true →
      Session.EndsSafely client frames k := by
  intro h
  have hsafe := h .initial [welcomeFive] 23 (by decide) rfl
  exact absurd (Session.zero_of_endsSafely (by decide) rfl hsafe).2 (by decide)

end Client

end PRShooter
