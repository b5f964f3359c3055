import PRShooter.Framing
import PRShooter.ServerThreads

/-!
# What reaches one client

`sendMessageTo` of `Server/server_send.c` with what each of its two `send`s takes: a frame is
written in two calls, either of which may fail or take a part of its buffer only. A failure of the
first is no reason to leave out the second, and a short count is not looked at; the status is
consulted for the next message. `framed_iff` says which runs still leave whole frames and at most
one unfinished frame on the connection.
-/

namespace PRShooter

open LittleEndian Framing

/-! ## Outcomes -/

/-- A `send` fails and writes nothing, or takes so many bytes of its buffer. -/
inductive SendOutcome where
  | failed
  | taken (n : ℕ)
  deriving DecidableEq

namespace SendOutcome

/-- The number of bytes written. -/
def count : SendOutcome → ℕ
  | failed => 0
  | taken n => n

/-- At most the bytes requested are taken, and one at least if any are requested. -/
def Possible (requested : ℕ) : SendOutcome → Prop
  | failed => True
  | taken n => n ≤ requested ∧ (0 < requested → 0 < n)

instance (requested : ℕ) : DecidablePred (Possible requested)
  | failed => .isTrue trivial
  | taken _ => inferInstanceAs (Decidable (_ ∧ _))

end SendOutcome

/-! ## The connection -/

/-- The bytes written of one message. -/
structure Chunk where
  body : List UInt8
  bytes : List UInt8
  deriving DecidableEq

/-- The status of the client, and what was written for each message so far. -/
structure Connection where
  status : ThreadStatus
  log : List Chunk

/-- A call of `sendMessageTo` with what its two `send`s do, or one of the places where the server
writes another status into the record of the client. -/
inductive ConnectionLabel where
  | sendMessageTo (body : List UInt8) (size data : SendOutcome)
  | stopReceivingThreads
  | stopClient

namespace Connection

/-- A client that has connected. -/
def initial : Connection := ⟨.running, []⟩

/-- `signalClientToStop`. -/
def signalClientToStop (s : Connection) : Connection := { s with status := .stop }

/-- The bytes that the two `send`s write. -/
def chunk (body : List UInt8) (size data : SendOutcome) : Chunk :=
  ⟨body, (bytes 4 body.length).take size.count ++ body.take data.count⟩

/-- `sendMessageTo`. -/
def sendMessageTo (s : Connection) (body : List UInt8) (size data : SendOutcome) : Connection :=
  if s.status ≠ .running then { s with log := s.log ++ [⟨body, []⟩] }
  else
    let s := { s with log := s.log ++ [chunk body size data] }
    let s := if size = .failed then s.signalClientToStop else s
    if data = .failed then s.signalClientToStop else s

/-- One step. The size of a message is an `unsigned int`. -/
def step (s : Connection) : ConnectionLabel → Option Connection
  | .sendMessageTo body size data =>
    if Fits body ∧ size.Possible 4 ∧ data.Possible body.length then
      some (s.sendMessageTo body size data)
    else none
  | .stopReceivingThreads => some { s with status := .stop }
  | .stopClient => some { s with status := .stopped }

end Connection

/-- Nothing was written. -/
def Silent (log : List Chunk) : Prop := ∀ c ∈ log, c.bytes = []

/-- Whole frames, then at most one beginning of a frame with nothing written after it. -/
def Framed : List Chunk → Prop
  | [] => True
  | c :: log =>
    (c.bytes = [] ∨ c.bytes = frame c.body) ∧ Framed log ∨
      c.bytes <+: frame c.body ∧ Silent log

/-! ## The condition -/

/-- Nothing more is written to a running client: it is stopped before its next message, or both
`send`s of that message write nothing. -/
def Quiet : List ConnectionLabel → Prop
  | [] | .stopReceivingThreads :: _ | .stopClient :: _ => True
  | .sendMessageTo _ size data :: _ => size = .failed ∧ data.count = 0

/-- The first frame that is not written whole is begun at its front, and nothing is written after
it: one of its `send`s has failed, or the next message writes nothing. -/
def KeepsFrames : List ConnectionLabel → Prop
  | [] | .stopReceivingThreads :: _ | .stopClient :: _ => True
  | .sendMessageTo body size data :: ls =>
    if size.count = 4 ∧ data.count = body.length then data = .failed ∨ KeepsFrames ls
    else body.take data.count <+: (frame body).drop size.count ∧
      (size = .failed ∨ data = .failed ∨ Quiet ls)

/-! ## Logs -/

theorem silent_cons {c : Chunk} {log : List Chunk} :
    Silent (c :: log) ↔ c.bytes = [] ∧ Silent log := by
  simp [Silent]

theorem framed_of_silent {log : List Chunk} (h : Silent log) : Framed log := by
  cases log with
  | nil => trivial
  | cons c log =>
    obtain ⟨hc, hlog⟩ := silent_cons.mp h
    exact .inr ⟨hc ▸ List.nil_prefix, hlog⟩

theorem framed_cons_of_silent {c : Chunk} {log : List Chunk} (h : Silent log) :
    Framed (c :: log) ↔ c.bytes <+: frame c.body := by
  constructor
  · rintro (⟨hc | hc, -⟩ | ⟨hc, -⟩)
    · exact hc ▸ List.nil_prefix
    · exact hc ▸ List.prefix_refl _
    · exact hc
  · intro hc
    exact .inr ⟨hc, h⟩

/-! ## One message -/

theorem SendOutcome.Possible.count_le {requested : ℕ} {o : SendOutcome} (h : o.Possible requested) :
    o.count ≤ requested := by
  cases o with
  | failed => exact Nat.zero_le _
  | taken n => exact h.1

theorem SendOutcome.Possible.count_eq_zero {requested : ℕ} {o : SendOutcome}
    (h : o.Possible requested)
    (hpos : 0 < requested) : o.count = 0 ↔ o = .failed := by
  cases o with
  | failed => simp [count]
  | taken n =>
    have hn := h.2 hpos
    simp only [count, reduceCtorEq, iff_false]
    omega

namespace Connection

variable {body : List UInt8} {size data : SendOutcome}

theorem chunk_bytes_eq_nil (hsize : size.Possible 4) (hdata : data.Possible body.length) :
    (chunk body size data).bytes = [] ↔ size = .failed ∧ data.count = 0 := by
  have hle := hdata.count_le
  rw [← hsize.count_eq_zero (by decide), ← List.length_eq_zero_iff]
  simp only [chunk, List.length_append, List.length_take, length_bytes]
  have := hsize.count_le
  omega

theorem chunk_bytes_eq_frame (hsize : size.Possible 4) (hdata : data.Possible body.length) :
    (chunk body size data).bytes = frame body ↔ size.count = 4 ∧ data.count = body.length := by
  have hsizeLe := hsize.count_le
  have hdataLe := hdata.count_le
  constructor
  · intro h
    have hlen := congrArg List.length h
    simp only [chunk, List.length_append, List.length_take, length_bytes, length_frame] at hlen
    omega
  · rintro ⟨h4, hlen⟩
    simp [chunk, frame, h4, hlen, List.take_of_length_le]

/-- The bytes written are a beginning of the frame if those of the data follow those of the size. -/
theorem chunk_bytes_prefix (hsize : size.Possible 4) (body : List UInt8) (data : SendOutcome) :
    (chunk body size data).bytes <+: frame body ↔
      body.take data.count <+: (frame body).drop size.count := by
  have htake : (bytes 4 body.length).take size.count = (frame body).take size.count := by
    unfold frame
    rw [List.take_append_of_le_length]
    simpa using hsize.count_le
  have hiff : (frame body).take size.count ++ body.take data.count <+:
      (frame body).take size.count ++ (frame body).drop size.count ↔
        body.take data.count <+: (frame body).drop size.count :=
    List.prefix_append_right_inj _
  rw [List.take_append_drop] at hiff
  unfold chunk
  rw [htake]
  exact hiff

/-! ## Runs -/

variable {s t : Connection} {ls : List ConnectionLabel}

theorem sendMessageTo_of_not_running (h : s.status ≠ .running) :
    s.sendMessageTo body size data = { s with log := s.log ++ [⟨body, []⟩] } := by
  unfold sendMessageTo
  rw [if_pos h]

/-- The client stays RUNNING unless a `send` fails. -/
theorem sendMessageTo_of_running (h : s.status = .running) (body : List UInt8)
    (size data : SendOutcome) :
    ∃ status, s.sendMessageTo body size data = ⟨status, s.log ++ [chunk body size data]⟩ ∧
      (status = .running ↔ size ≠ .failed ∧ data ≠ .failed) := by
  unfold sendMessageTo
  rw [if_neg (not_not.mpr h)]
  by_cases hsize : size = .failed <;> by_cases hdata : data = .failed
  · exact ⟨.stop, by simp [hsize, hdata, signalClientToStop], by simp [hsize]⟩
  · exact ⟨.stop, by simp [hsize, hdata, signalClientToStop], by simp [hsize]⟩
  · exact ⟨.stop, by simp [hsize, hdata, signalClientToStop], by simp [hdata]⟩
  · exact ⟨s.status, by simp [hsize, hdata], by simp [hsize, hdata, h]⟩

/-- Once a client is not RUNNING nothing is written to it any more. -/
theorem silent_of_run (h : Lts.run step ls s = some t) (hs : s.status ≠ .running) :
    ∃ log, t.log = s.log ++ log ∧ Silent log := by
  have hI := Lts.run_invariant (I := fun u => u.status ≠ .running ∧
    ∃ log, u.log = s.log ++ log ∧ Silent log) h ⟨hs, [], by simp, by simp [Silent]⟩ ?_
  · exact hI.2
  · rintro u l - v ⟨hu, log, hlog, hsilent⟩ hstep
    cases l with
    | sendMessageTo body size data =>
      obtain ⟨-, hv⟩ := Option.ite_none_right_eq_some.mp hstep
      rw [sendMessageTo_of_not_running hu] at hv
      obtain rfl := Option.some.inj hv
      refine ⟨hu, log ++ [⟨body, []⟩], by simp [hlog], fun c hc => ?_⟩
      rcases List.mem_append.mp hc with hc | hc
      · exact hsilent c hc
      · rw [List.mem_singleton.mp hc]
    | stopReceivingThreads | stopClient =>
      obtain rfl := Option.some.inj hstep
      exact ⟨nofun, log, hlog, hsilent⟩

/-- A message after which the client is still RUNNING. -/
theorem framed_cons_of_running {log : List Chunk} (hsize : size.Possible 4)
    (hdata : data.Possible body.length) (hsizeOk : size ≠ .failed) (hdataOk : data ≠ .failed)
    (hsilent : Silent log ↔ Quiet ls) (hframed : Framed log ↔ KeepsFrames ls) :
    Framed (chunk body size data :: log) ↔
      KeepsFrames (.sendMessageTo body size data :: ls) := by
  have hne : ¬ (chunk body size data).bytes = [] := by
    simp [chunk_bytes_eq_nil hsize hdata, hsizeOk]
  have hwhole := chunk_bytes_eq_frame hsize hdata
  have hinitial := chunk_bytes_prefix hsize body data
  unfold Framed
  rw [KeepsFrames, hsilent, hframed]
  split_ifs with hw
  · have hframe : (chunk body size data).bytes = frame body := hwhole.mpr hw
    constructor
    · rintro (⟨-, hkeeps⟩ | ⟨-, hquiet⟩)
      · exact .inr hkeeps
      · exact .inr (hframed.mp (framed_of_silent (hsilent.mpr hquiet)))
    · rintro (hfailed | hkeeps)
      · exact absurd hfailed hdataOk
      · exact .inl ⟨.inr hframe, hkeeps⟩
  · have hnotFrame : ¬ (chunk body size data).bytes = frame body := mt hwhole.mp hw
    constructor
    · rintro (⟨hc | hc, -⟩ | ⟨hc, hquiet⟩)
      · exact absurd hc hne
      · exact absurd hc hnotFrame
      · exact ⟨hinitial.mp hc, .inr (.inr hquiet)⟩
    · rintro ⟨hc, hfailed | hfailed | hquiet⟩
      · exact absurd hfailed hsizeOk
      · exact absurd hfailed hdataOk
      · exact .inr ⟨hinitial.mpr hc, hquiet⟩

/-- A message with which a `send` fails, and nothing written after it. -/
theorem framed_cons_of_failed {log : List Chunk} (hsize : size.Possible 4)
    (hdata : data.Possible body.length) (hfailed : size = .failed ∨ data = .failed)
    (hsilent : Silent log) :
    Framed (chunk body size data :: log) ↔
      KeepsFrames (.sendMessageTo body size data :: ls) := by
  have hwhole := chunk_bytes_eq_frame hsize hdata
  have hinitial := chunk_bytes_prefix hsize body data
  rw [framed_cons_of_silent hsilent, KeepsFrames]
  split_ifs with hw
  · have hdataFailed : data = .failed := by
      refine hfailed.resolve_left fun h => ?_
      rw [h] at hw
      exact absurd hw.1 (by decide)
    exact iff_of_true (hwhole.mpr hw ▸ List.prefix_refl _) (.inl hdataFailed)
  · rw [← or_assoc]
    exact hinitial.trans ⟨fun hc => ⟨hc, .inl hfailed⟩, And.left⟩

/-- From a RUNNING client on. -/
theorem framed_of_run (h : Lts.run step ls s = some t) (hs : s.status = .running) :
    ∃ log, t.log = s.log ++ log ∧ (Silent log ↔ Quiet ls) ∧ (Framed log ↔ KeepsFrames ls) := by
  induction ls generalizing s with
  | nil =>
    obtain rfl : s = t := by simpa using h
    exact ⟨[], by simp, by simp [Silent, Quiet], by simp [Framed, KeepsFrames]⟩
  | cons l ls ih =>
    obtain ⟨u, hstep, hrest⟩ := Option.bind_eq_some_iff.mp h
    cases l with
    | stopReceivingThreads | stopClient =>
      obtain rfl := Option.some.inj hstep
      obtain ⟨log, hlog, hsilent⟩ := silent_of_run hrest nofun
      exact ⟨log, hlog, by simp [hsilent, Quiet], by simp [framed_of_silent hsilent, KeepsFrames]⟩
    | sendMessageTo body size data =>
      obtain ⟨⟨-, hsize, hdata⟩, hu⟩ := Option.ite_none_right_eq_some.mp hstep
      obtain ⟨status, heq, hstatus⟩ := sendMessageTo_of_running hs body size data
      obtain rfl := (Option.some.inj hu).symm.trans heq
      have hnil := chunk_bytes_eq_nil hsize hdata
      by_cases hrunning : status = .running
      · obtain ⟨hsizeOk, hdataOk⟩ := hstatus.mp hrunning
        obtain ⟨log, hlog, hsilent, hframed⟩ := ih hrest hrunning
        refine ⟨chunk body size data :: log, by simp [hlog], ?_, ?_⟩
        · simp [silent_cons, hnil, Quiet, hsizeOk]
        · exact framed_cons_of_running hsize hdata hsizeOk hdataOk hsilent hframed
      · obtain ⟨log, hlog, hsilent⟩ := silent_of_run hrest hrunning
        have hfailed : size = .failed ∨ data = .failed := by
          by_contra hnone
          exact hrunning (hstatus.mpr (not_or.mp hnone))
        refine ⟨chunk body size data :: log, by simp [hlog], ?_, ?_⟩
        · simp [silent_cons, hnil, hsilent, Quiet]
        · exact framed_cons_of_failed hsize hdata hfailed hsilent

end Connection

/-! ## The bytes -/

/-- The bytes written to the connection. -/
def Connection.written (s : Connection) : List UInt8 := s.log.flatMap Chunk.bytes

theorem flatMap_eq_nil_of_silent {log : List Chunk} (h : Silent log) :
    log.flatMap Chunk.bytes = [] := by
  simpa [Silent] using h

/-- Frames of messages sent, in order, and the beginning of one more. -/
theorem flatMap_of_framed {log : List Chunk} (h : Framed log) :
    ∃ bodies rest, log.flatMap Chunk.bytes = stream bodies ++ rest ∧
      bodies.Sublist (log.map Chunk.body) ∧ (rest = [] ∨ ∃ c ∈ log, rest <+: frame c.body) := by
  induction log with
  | nil => exact ⟨[], [], rfl, by simp, .inl rfl⟩
  | cons c log ih =>
    rcases h with ⟨hc, hlog⟩ | ⟨hc, hsilent⟩
    · obtain ⟨bodies, rest, hbytes, hsub, hrest⟩ := ih hlog
      have hrest' : rest = [] ∨ ∃ d ∈ c :: log, rest <+: frame d.body :=
        hrest.imp_right fun ⟨d, hd, hprefix⟩ => ⟨d, by simp [hd], hprefix⟩
      rcases hc with hc | hc
      · exact ⟨bodies, rest, by simp [hc, hbytes], hsub.trans (by simp), hrest'⟩
      · exact ⟨c.body :: bodies, rest, by simp [hc, hbytes], by simpa using hsub, hrest'⟩
    · refine ⟨[], c.bytes, ?_, by simp, .inr ⟨c, by simp, hc⟩⟩
      rw [List.flatMap_cons, flatMap_eq_nil_of_silent hsilent]
      simp

/-- **Partial writes.** Whole frames and at most one unfinished frame at the end are on the
connection exactly when the first frame not written whole is begun at its front and is the last. -/
theorem framed_iff {ls : List ConnectionLabel} {s : Connection}
    (h : Lts.run Connection.step ls Connection.initial = some s) :
    Framed s.log ↔ KeepsFrames ls := by
  obtain ⟨log, hlog, -, hframed⟩ := Connection.framed_of_run h rfl
  rw [show s.log = log from hlog]
  exact hframed

/-- A whole frame, then a frame whose data is cut off by an error, and a message after it. -/
def cutByError : List ConnectionLabel :=
  [.sendMessageTo [2, 7] (.taken 4) (.taken 2), .sendMessageTo [14, 1, 0] (.taken 4) .failed,
    .sendMessageTo [14, 2, 0] (.taken 4) (.taken 3)]

theorem framed_iff_cutByError :
    ∃ s, Lts.run Connection.step cutByError Connection.initial = some s ∧
      s.written = [2, 0, 0, 0, 2, 7, 3, 0, 0, 0] ∧ Framed s.log := by
  have hkeeps : KeepsFrames cutByError := by
    simp [cutByError, KeepsFrames, SendOutcome.count]
  exact ⟨_, rfl, rfl, (framed_iff (show Lts.run Connection.step cutByError _ = _ from rfl)).mpr
    hkeeps⟩

/-- The `send` of the size fails and that of the data does not. -/
theorem size_lost : ¬ ∀ ls s, Lts.run Connection.step ls Connection.initial = some s →
    Framed s.log := by
  intro h
  have hrun : Lts.run Connection.step [.sendMessageTo [14, 1, 0] .failed (.taken 3)]
      Connection.initial = some ⟨.stop, [⟨[14, 1, 0], [14, 1, 0]⟩]⟩ := rfl
  have hprefix : [14, 1, 0] <+: frame [14, 1, 0] :=
    (framed_cons_of_silent (by simp [Silent])).mp (h _ _ hrun)
  revert hprefix
  decide

end PRShooter
