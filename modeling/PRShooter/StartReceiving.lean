import PRShooter.Framing
import PRShooter.Receive

/-!
# One receiver thread

`startReceiving` of `Server/server_receive.c` call by call, over the bytes its client sends before
closing. The results of `poll`, `recv` and `getClientStatus` are those of the label; with
`MSG_WAITALL` a `recv` that does not fail returns all the bytes requested, or what is left of the
stream. The thread reports what it does to the queue and to the heap as an effect, so that the same
steps are read for one thread here and for all threads beside the host in `ReceivedBuffers`.
-/

namespace PRShooter

open LittleEndian Framing

/-! ## Payloads -/

/-- The bytes of a payload. -/
def Message.bytes (m : Message) : List UInt8 := (List.range m.size).map m.data

/-- A payload of the given bytes in a buffer behind which there is other memory. -/
def Message.received (bs : List UInt8) (behind : ℕ → UInt8) : Message :=
  ⟨bs.length, fun i => bs.getD i (behind i)⟩

@[simp] theorem Message.bytes_received (bs : List UInt8) (behind : ℕ → UInt8) :
    (Message.received bs behind).bytes = bs := by
  refine List.ext_getElem (by simp [bytes, received]) fun i h _ => ?_
  have hi : i < bs.length := by simpa [bytes, received] using h
  simp [bytes, received, hi]

/-! ## Integers of C -/

/-- Conversion to `int`. -/
def toInt32 (n : ℤ) : ℤ := n.bmod (2 ^ 32)

/-- `(size_t)`. -/
def toSizeT (n : ℤ) : ℕ := (n % 2 ^ 64).toNat

/-- A count that is an `int` is what it is, as a `size_t` too. -/
theorem toInt32_natCast {n : ℕ} (h : n < 2 ^ 31) : toInt32 n = n := by
  rw [toInt32, Int.bmod_eq_emod_of_lt] <;> omega

theorem toSizeT_natCast {n : ℕ} (h : n < 2 ^ 64) : toSizeT n = n := by
  unfold toSizeT
  omega

/-- From `2 ^ 31` on a count becomes a negative `int`, and that a `size_t` beyond four bytes. -/
theorem toSizeT_toInt32_of_ge {n : ℕ} (h : 2 ^ 31 ≤ n) (hlt : n < 2 ^ 32) :
    2 ^ 32 ≤ toSizeT (toInt32 n) := by
  rw [toSizeT, toInt32, Int.bmod_neg] <;> omega

/-! ## The thread -/

/-- What `poll` returns: an error other than `EINTR`, `EINTR`, nothing in time, `POLLIN`, or another
event. -/
inductive PollResult where
  | failed
  | interrupted
  | timeout
  | readable
  | other
  deriving DecidableEq

/-- The next call of the thread. -/
inductive ReceiverCall where
  /-- `queueSyncPushBack` of NEW_CONNECTION. -/
  | pushConnected
  | getClientStatus
  | poll
  | recvSize
  | malloc (size : ℕ)
  | recvData (size : ℕ) (buffer : ℕ)
  /-- `queueSyncPushBack` of the MESSAGE. -/
  | pushMessage (message : Message) (buffer : ℕ)
  /-- `queueSyncPushFront` of LOST_CONNECTION. -/
  | pushDisconnected
  /-- `close` and `stopClient`. -/
  | close
  | returned

/-- What a call does to `received_messages` and to the heap. -/
inductive ReceiverEffect where
  | none
  | pushBack (event : IncomingMessage) (buffer : Option ℕ)
  | pushFront (event : IncomingMessage)
  | malloc (buffer : ℕ)
  | free (buffer : ℕ)

/-- The choices of the environment. -/
inductive ReceiverLabel where
  | pushed
  | status (running : Bool)
  | poll (result : PollResult)
  | recvSize (ok : Bool)
  | malloc (buffer : ℕ)
  | recvData (ok : Bool) (behind : ℕ → UInt8)
  | closed

/-- A receiver thread: its client, its next call, and the bytes of the stream not yet received. -/
structure ReceiverState where
  clientId : ℕ
  call : ReceiverCall
  unread : List UInt8

/-- `int return_recv = recv(sock, .., requested, MSG_WAITALL)`. -/
def returnRecv (ok : Bool) (unread : List UInt8) (requested : ℕ) : ℤ :=
  if ok then toInt32 (min requested unread.length : ℕ) else -1

namespace ReceiverState

/-- After the `recv` of the size. -/
def afterRecvSize (r : ReceiverState) (ok : Bool) : ReceiverState :=
  let returned := returnRecv ok r.unread 4
  let unread := if ok then r.unread.drop 4 else r.unread
  if returned = -1 then { r with call := .pushDisconnected, unread }
  else if returned = 0 then { r with call := .pushDisconnected, unread }
  else if toSizeT returned ≠ 4 then { r with call := .pushDisconnected, unread }
  else { r with call := .malloc (value (r.unread.take 4)), unread }

/-- After the `recv` of the data: on any failure the buffer is freed. -/
def afterRecvData (r : ReceiverState) (size buffer : ℕ) (ok : Bool) (behind : ℕ → UInt8) :
    ReceiverState × ReceiverEffect :=
  let returned := returnRecv ok r.unread size
  let unread := if ok then r.unread.drop size else r.unread
  if returned = -1 then ({ r with call := .pushDisconnected, unread }, .free buffer)
  else if toSizeT returned ≠ size then ({ r with call := .pushDisconnected, unread }, .free buffer)
  else
    ({ r with call := .pushMessage (.received (r.unread.take size) behind) buffer, unread }, .none)

/-- One call of `startReceiving`, with what it returns. When a blocking call returns is left open. -/
def step (r : ReceiverState) : ReceiverLabel → Option (ReceiverState × ReceiverEffect)
  | .pushed =>
    match r.call with
    | .pushConnected =>
      some ({ r with call := .getClientStatus }, .pushBack (newConnectionEvent r.clientId) none)
    | .pushMessage message buffer =>
      some ({ r with call := .getClientStatus },
        .pushBack (messageEvent r.clientId message) (some buffer))
    | .pushDisconnected =>
      some ({ r with call := .close }, .pushFront (lostConnectionEvent r.clientId))
    | _ => none
  | .status running =>
    match r.call with
    | .getClientStatus =>
      some ({ r with call := if running then .poll else .pushDisconnected }, .none)
    | _ => none
  | .poll result =>
    match r.call with
    | .poll =>
      match result with
      | .failed => some ({ r with call := .pushDisconnected }, .none)
      | .readable => some ({ r with call := .recvSize }, .none)
      | .interrupted | .timeout | .other => some ({ r with call := .getClientStatus }, .none)
    | _ => none
  | .recvSize ok =>
    match r.call with
    | .recvSize => some (r.afterRecvSize ok, .none)
    | _ => none
  | .malloc buffer =>
    match r.call with
    | .malloc size => some ({ r with call := .recvData size buffer }, .malloc buffer)
    | _ => none
  | .recvData ok behind =>
    match r.call with
    | .recvData size buffer => some (r.afterRecvData size buffer ok behind)
    | _ => none
  | .closed =>
    match r.call with
    | .close => some ({ r with call := .returned }, .none)
    | _ => none

end ReceiverState

/-- The events an effect pushes. -/
def ReceiverEffect.events : ReceiverEffect → List IncomingMessage
  | .pushBack event _ | .pushFront event => [event]
  | .none | .malloc _ | .free _ => []

/-- A thread and the events it has pushed. -/
structure StartReceiving where
  thread : ReceiverState
  pushed : List IncomingMessage

namespace StartReceiving

/-- The thread of client `c`, who sends the bytes `sent` before closing. -/
def initial (c : ℕ) (sent : List UInt8) : StartReceiving := ⟨⟨c, .pushConnected, sent⟩, []⟩

/-- One call of the thread. -/
def step (s : StartReceiving) (l : ReceiverLabel) : Option StartReceiving :=
  (s.thread.step l).map fun (thread, effect) => ⟨thread, s.pushed ++ effect.events⟩

end StartReceiving

/-- No call fails and the client is RUNNING. -/
def callsSucceed (_ : StartReceiving) : ReceiverLabel → Prop
  | .status running => running = true
  | .poll result => result ≠ .failed
  | .recvSize ok | .recvData ok _ => ok = true
  | .pushed | .malloc _ | .closed => True

/-! ## What a call does -/

namespace ReceiverState

/-- What one call of the thread does, and to which call it goes. -/
inductive Calls (r : ReceiverState) : ReceiverLabel → ReceiverState → ReceiverEffect → Prop
  | connected (hcall : r.call = .pushConnected) :
    Calls r .pushed { r with call := .getClientStatus }
      (.pushBack (newConnectionEvent r.clientId) none)
  | message (message : Message) (buffer : ℕ) (hcall : r.call = .pushMessage message buffer) :
    Calls r .pushed { r with call := .getClientStatus }
      (.pushBack (messageEvent r.clientId message) (some buffer))
  | disconnected (hcall : r.call = .pushDisconnected) :
    Calls r .pushed { r with call := .close } (.pushFront (lostConnectionEvent r.clientId))
  | status (running : Bool) (hcall : r.call = .getClientStatus) :
    Calls r (.status running) { r with call := if running then .poll else .pushDisconnected } .none
  | pollFailed (hcall : r.call = .poll) :
    Calls r (.poll .failed) { r with call := .pushDisconnected } .none
  | pollReadable (hcall : r.call = .poll) :
    Calls r (.poll .readable) { r with call := .recvSize } .none
  | pollAgain (result : PollResult) (hcall : r.call = .poll) :
    Calls r (.poll result) { r with call := .getClientStatus } .none
  | recvSize (ok : Bool) (hcall : r.call = .recvSize) :
    Calls r (.recvSize ok) (r.afterRecvSize ok) .none
  | malloc (size buffer : ℕ) (hcall : r.call = .malloc size) :
    Calls r (.malloc buffer) { r with call := .recvData size buffer } (.malloc buffer)
  | recvData (size buffer : ℕ) (ok : Bool) (behind : ℕ → UInt8)
      (hcall : r.call = .recvData size buffer) :
    Calls r (.recvData ok behind) (r.afterRecvData size buffer ok behind).1
      (r.afterRecvData size buffer ok behind).2
  | closed (hcall : r.call = .close) : Calls r .closed { r with call := .returned } .none

theorem calls_of_step {r r' : ReceiverState} {l : ReceiverLabel} {effect : ReceiverEffect}
    (h : r.step l = some (r', effect)) : r.Calls l r' effect := by
  cases l with
  | pushed =>
    simp only [step] at h
    split at h <;> simp only [Option.some.injEq, Prod.mk.injEq, reduceCtorEq] at h <;>
      obtain ⟨rfl, rfl⟩ := h
    case h_1 hcall => exact .connected hcall
    case h_2 message buffer hcall => exact .message message buffer hcall
    case h_3 hcall => exact .disconnected hcall
  | status running =>
    simp only [step] at h
    split at h <;> simp only [Option.some.injEq, Prod.mk.injEq, reduceCtorEq] at h
    case h_1 hcall =>
      obtain ⟨rfl, rfl⟩ := h
      exact .status running hcall
  | poll result =>
    simp only [step] at h
    split at h
    next hcall =>
      cases result <;> simp only [Option.some.injEq, Prod.mk.injEq] at h <;>
        obtain ⟨rfl, rfl⟩ := h
      case failed => exact .pollFailed hcall
      case readable => exact .pollReadable hcall
      all_goals exact .pollAgain _ hcall
    next => cases h
  | recvSize ok =>
    simp only [step] at h
    split at h <;> simp only [Option.some.injEq, Prod.mk.injEq, reduceCtorEq] at h
    case h_1 hcall =>
      obtain ⟨rfl, rfl⟩ := h
      exact .recvSize ok hcall
  | malloc buffer =>
    simp only [step] at h
    split at h <;> simp only [Option.some.injEq, Prod.mk.injEq, reduceCtorEq] at h
    case h_1 size hcall =>
      obtain ⟨rfl, rfl⟩ := h
      exact .malloc size buffer hcall
  | recvData ok behind =>
    simp only [step] at h
    split at h <;> simp only [Option.some.injEq, reduceCtorEq] at h
    case h_1 size buffer hcall =>
      obtain ⟨rfl, rfl⟩ := Prod.mk.inj h
      exact .recvData size buffer ok behind hcall
  | closed =>
    simp only [step] at h
    split at h <;> simp only [Option.some.injEq, Prod.mk.injEq, reduceCtorEq] at h
    case h_1 hcall =>
      obtain ⟨rfl, rfl⟩ := h
      exact .closed hcall

/-! ## What the two reads do -/

variable (r : ReceiverState)

theorem returnRecv_true {unread : List UInt8} {requested : ℕ}
    (h : min requested unread.length < 2 ^ 31) :
    returnRecv true unread requested = (min requested unread.length : ℕ) := by
  unfold returnRecv
  rw [if_pos rfl, toInt32_natCast h]

/-- The size is read whole, or the thread stops. -/
theorem afterRecvSize_cases (ok : Bool) :
    (∃ unread, r.afterRecvSize ok = { r with call := .pushDisconnected, unread } ∧
      (ok = true → Truncated r.unread)) ∨
    (ok = true ∧ 4 ≤ r.unread.length ∧ r.afterRecvSize ok =
      { r with call := .malloc (value (r.unread.take 4)), unread := r.unread.drop 4 }) := by
  cases ok with
  | false => exact .inl ⟨r.unread, by simp [afterRecvSize, returnRecv], nofun⟩
  | true =>
    have hreturned : returnRecv true r.unread 4 = (min 4 r.unread.length : ℕ) :=
      returnRecv_true (by omega)
    have hsizeT := toSizeT_natCast (n := min 4 r.unread.length) (by omega)
    simp only [afterRecvSize, hreturned, hsizeT, if_true]
    rw [if_neg (by omega)]
    by_cases hlen : 4 ≤ r.unread.length
    · rw [if_neg (by omega), if_neg (by omega)]
      exact .inr ⟨trivial, hlen, rfl⟩
    · refine .inl ⟨r.unread.drop 4, ?_, fun _ => .inl (by omega)⟩
      split_ifs <;> first | rfl | omega

/-- The data is read whole, or the buffer is freed and the thread stops. -/
theorem afterRecvData_cases {size : ℕ} (hsize : size < 2 ^ 32) (buffer : ℕ) (ok : Bool)
    (behind : ℕ → UInt8) :
    (∃ unread, r.afterRecvData size buffer ok behind =
        ({ r with call := .pushDisconnected, unread }, .free buffer) ∧
      (ok = true → r.unread.length < size ∨ 2 ^ 31 ≤ size)) ∨
    (ok = true ∧ size ≤ r.unread.length ∧ r.afterRecvData size buffer ok behind =
      ({ r with
        call := .pushMessage (.received (r.unread.take size) behind) buffer
        unread := r.unread.drop size }, .none)) := by
  cases ok with
  | false => exact .inl ⟨r.unread, by simp [afterRecvData, returnRecv], nofun⟩
  | true =>
    rcases Nat.lt_or_ge (min size r.unread.length) (2 ^ 31) with hlt | hge
    · have hreturned := returnRecv_true hlt
      have hsizeT := toSizeT_natCast (n := min size r.unread.length) (by omega)
      simp only [afterRecvData, hreturned, hsizeT, if_true]
      rw [if_neg (by omega)]
      by_cases hlen : size ≤ r.unread.length
      · rw [if_neg (by omega)]
        exact .inr ⟨trivial, hlen, rfl⟩
      · rw [if_pos (by omega)]
        exact .inl ⟨_, rfl, fun _ => .inl (by omega)⟩
    · -- the count is negative as an `int`
      have hwrap := toSizeT_toInt32_of_ge hge (by omega)
      have hne : toSizeT (toInt32 (min size r.unread.length : ℕ)) ≠ size := by omega
      refine .inl ⟨r.unread.drop size, ?_, fun _ => .inr (by omega)⟩
      simp only [afterRecvData, returnRecv, if_true, if_pos hne, ite_self]

end ReceiverState

/-! ## Runs -/

/-- The thread has left its loop. -/
def ReceiverCall.ended : ReceiverCall → Bool
  | .pushDisconnected | .close | .returned => true
  | _ => false

/-- The complete frames that the thread has still to push while it is in its loop: those of what is
unread, behind the header it has read or the message it holds. -/
def ReceiverState.FramesLeft (r : ReceiverState) (fs : List (List UInt8)) : Prop :=
  match r.call with
  | .pushConnected | .getClientStatus | .poll | .recvSize => fs = completeFrames r.unread
  | .malloc size | .recvData size _ =>
    size < 2 ^ 32 ∧ fs = completeFrames (LittleEndian.bytes 4 size ++ r.unread)
  | .pushMessage message _ => fs = message.bytes :: completeFrames r.unread
  | .pushDisconnected | .close | .returned => True

/-- The events pushed before a call, when the messages `ms` have been pushed. -/
def pushedBefore (c : ℕ) (ms : List Message) : ReceiverCall → List IncomingMessage
  | .pushConnected => []
  | .close | .returned => clientHistory c ms
  | _ => newConnectionEvent c :: ms.map (messageEvent c)

/-- The messages `ms` have been pushed, and `fs` are the frames of the stream after them. If
`clean`, the thread leaves its loop at the end of the stream only. -/
structure StartReceiving.Progress (clean : Prop) (c : ℕ) (sent : List UInt8) (s : StartReceiving)
    (ms : List Message) (fs : List (List UInt8)) : Prop where
  frames : completeFrames sent = ms.map Message.bytes ++ fs
  left : s.thread.FramesLeft fs
  pushed : s.pushed = pushedBefore c ms s.thread.call
  clientId : s.thread.clientId = c
  start : s.thread.call = .pushConnected → ms = []
  ended : clean → s.thread.call.ended = true → fs = []

namespace StartReceiving

variable {clean : Prop} {c : ℕ} {sent : List UInt8} {s t : StartReceiving} {ms : List Message}
  {fs : List (List UInt8)}

theorem progress_initial (clean : Prop) (c : ℕ) (sent : List UInt8) :
    (initial c sent).Progress clean c sent [] (completeFrames sent) :=
  ⟨rfl, rfl, rfl, rfl, fun _ => rfl, fun _ => nofun⟩

/-- A step is a call of the thread, and the events of its effect are pushed. -/
theorem exists_of_step {l : ReceiverLabel} (h : s.step l = some t) :
    ∃ thread effect, s.thread.step l = some (thread, effect) ∧
      t = ⟨thread, s.pushed ++ effect.events⟩ := by
  obtain ⟨⟨thread, effect⟩, hthread, rfl⟩ := Option.map_eq_some_iff.mp h
  exact ⟨thread, effect, hthread, rfl⟩

theorem progress_pushed (h : s.Progress clean c sent ms fs) (hstep : s.step .pushed = some t) :
    ∃ ms' fs', t.Progress clean c sent ms' fs' := by
  obtain ⟨r, effect, hr, rfl⟩ := exists_of_step hstep
  have hleft := h.left
  have hpushed := h.pushed
  have hclient := h.clientId
  unfold ReceiverState.FramesLeft at hleft
  cases ReceiverState.calls_of_step hr with
  | connected hcall =>
    rw [hcall] at hleft hpushed
    obtain rfl := h.start hcall
    exact ⟨[], fs, h.frames, hleft, by simp [hpushed, pushedBefore, ReceiverEffect.events, hclient],
      hclient, nofun, fun _ => nofun⟩
  | message message buffer hcall =>
    rw [hcall] at hleft hpushed
    subst hleft
    exact ⟨ms ++ [message], _, by simp [h.frames], rfl,
      by simp [hpushed, pushedBefore, ReceiverEffect.events, hclient],
      hclient, nofun, fun _ => nofun⟩
  | disconnected hcall =>
    rw [hcall] at hpushed
    exact ⟨ms, fs, h.frames, trivial,
      by simp [hpushed, pushedBefore, clientHistory, ReceiverEffect.events, hclient],
      hclient, nofun, fun hclean _ => h.ended hclean (by rw [hcall]; rfl)⟩

/-- The thread goes to another call without pushing anything. -/
theorem Progress.move {r : ReceiverState} (h : s.Progress clean c sent ms fs)
    (hclient : r.clientId = s.thread.clientId) (hstart : r.call ≠ .pushConnected)
    (hbefore : pushedBefore c ms s.thread.call = pushedBefore c ms r.call)
    (hleft : r.FramesLeft fs) (hended : clean → r.call.ended = true → fs = []) :
    (⟨r, s.pushed ++ []⟩ : StartReceiving).Progress clean c sent ms fs :=
  ⟨h.frames, hleft, by rw [List.append_nil, h.pushed, hbefore], hclient.trans h.clientId,
    fun hcall => absurd hcall hstart, hended⟩

theorem progress_status {running : Bool} (h : s.Progress clean c sent ms fs)
    (hok : clean → running = true) (hstep : s.step (.status running) = some t) :
    t.Progress clean c sent ms fs := by
  obtain ⟨r, effect, hr, rfl⟩ := exists_of_step hstep
  have hleft := h.left
  unfold ReceiverState.FramesLeft at hleft
  cases ReceiverState.calls_of_step hr with
  | status _ hcall =>
    rw [hcall] at hleft
    cases running with
    | true => exact h.move rfl nofun (by rw [hcall]; rfl) hleft fun _ => nofun
    | false =>
      exact h.move rfl nofun (by rw [hcall]; rfl) trivial fun hclean => absurd (hok hclean) nofun

theorem progress_poll {result : PollResult} (h : s.Progress clean c sent ms fs)
    (hok : clean → result ≠ .failed) (hstep : s.step (.poll result) = some t) :
    t.Progress clean c sent ms fs := by
  obtain ⟨r, effect, hr, rfl⟩ := exists_of_step hstep
  have hleft := h.left
  unfold ReceiverState.FramesLeft at hleft
  cases ReceiverState.calls_of_step hr with
  | pollFailed hcall =>
    exact h.move rfl nofun (by rw [hcall]; rfl) trivial fun hclean => absurd rfl (hok hclean)
  | pollReadable hcall | pollAgain _ hcall =>
    rw [hcall] at hleft
    exact h.move rfl nofun (by rw [hcall]; rfl) hleft fun _ => nofun

theorem progress_recvSize {ok : Bool} (h : s.Progress clean c sent ms fs)
    (hok : clean → ok = true) (hstep : s.step (.recvSize ok) = some t) :
    t.Progress clean c sent ms fs := by
  obtain ⟨r, effect, hr, rfl⟩ := exists_of_step hstep
  have hleft := h.left
  unfold ReceiverState.FramesLeft at hleft
  cases ReceiverState.calls_of_step hr with
  | recvSize _ hcall =>
    rw [hcall] at hleft
    rcases s.thread.afterRecvSize_cases ok with ⟨unread, hr, hcut⟩ | ⟨-, hlen, hr⟩ <;> rw [hr]
    · refine h.move rfl nofun (by rw [hcall]; rfl) trivial fun hclean _ => ?_
      rw [hleft, completeFrames_of_truncated (hcut (hok hclean))]
    · refine h.move rfl nofun (by rw [hcall]; rfl) ⟨value_take_lt _, ?_⟩ fun _ => nofun
      rw [hleft, header_append_drop hlen]

theorem progress_malloc {buffer : ℕ} (h : s.Progress clean c sent ms fs)
    (hstep : s.step (.malloc buffer) = some t) : t.Progress clean c sent ms fs := by
  obtain ⟨r, effect, hr, rfl⟩ := exists_of_step hstep
  have hleft := h.left
  unfold ReceiverState.FramesLeft at hleft
  cases ReceiverState.calls_of_step hr with
  | malloc size _ hcall =>
    rw [hcall] at hleft
    exact h.move rfl nofun (by rw [hcall]; rfl) hleft fun _ => nofun

theorem progress_recvData {ok : Bool} {behind : ℕ → UInt8} (h : s.Progress clean c sent ms fs)
    (hok : clean → ok = true) (hlengths : clean → ∀ f ∈ completeFrames sent, f.length < 2 ^ 31)
    (hstep : s.step (.recvData ok behind) = some t) : t.Progress clean c sent ms fs := by
  obtain ⟨r, effect, hr, rfl⟩ := exists_of_step hstep
  have hleft := h.left
  unfold ReceiverState.FramesLeft at hleft
  cases ReceiverState.calls_of_step hr with
  | recvData size buffer _ _ hcall =>
    rw [hcall] at hleft
    obtain ⟨hsize, hfs⟩ := hleft
    rcases s.thread.afterRecvData_cases hsize buffer ok behind with ⟨unread, hafter, hcut⟩ |
      ⟨-, hlen, hafter⟩ <;> rw [hafter]
    · refine h.move rfl nofun (by rw [hcall]; rfl) trivial fun hclean _ => ?_
      rcases Nat.lt_or_ge s.thread.unread.length size with hshort | hlen
      · rw [hfs, completeFrames_of_truncated (truncated_of_short hsize hshort)]
      · -- only a frame of more than 2 ^ 31 bytes is dropped, and there is none
        have hlarge := (hcut (hok hclean)).resolve_left (by omega)
        rw [completeFrames_header_append hsize hlen] at hfs
        have hmem : s.thread.unread.take size ∈ completeFrames sent := by
          rw [h.frames, hfs]
          simp
        have := hlengths hclean _ hmem
        rw [List.length_take] at this
        omega
    · refine h.move rfl nofun (by rw [hcall]; rfl) ?_ fun _ => nofun
      rw [hfs, completeFrames_header_append hsize hlen]
      simp [ReceiverState.FramesLeft]

theorem progress_closed (h : s.Progress clean c sent ms fs) (hstep : s.step .closed = some t) :
    t.Progress clean c sent ms fs := by
  obtain ⟨r, effect, hr, rfl⟩ := exists_of_step hstep
  cases ReceiverState.calls_of_step hr with
  | closed hcall =>
    exact h.move rfl nofun (by rw [hcall]; rfl) trivial fun hclean _ =>
      h.ended hclean (by rw [hcall]; rfl)

/-- Every call keeps track of the frames. -/
theorem progress_step {l : ReceiverLabel} (h : s.Progress clean c sent ms fs)
    (hok : clean → callsSucceed s l)
    (hlengths : clean → ∀ f ∈ completeFrames sent, f.length < 2 ^ 31) (hstep : s.step l = some t) :
    ∃ ms' fs', t.Progress clean c sent ms' fs' := by
  cases l with
  | pushed => exact progress_pushed h hstep
  | status running => exact ⟨ms, fs, progress_status h hok hstep⟩
  | poll result => exact ⟨ms, fs, progress_poll h hok hstep⟩
  | recvSize ok => exact ⟨ms, fs, progress_recvSize h hok hstep⟩
  | malloc buffer => exact ⟨ms, fs, progress_malloc h hstep⟩
  | recvData ok behind => exact ⟨ms, fs, progress_recvData h hok hlengths hstep⟩
  | closed => exact ⟨ms, fs, progress_closed h hstep⟩

/-! ## The thread gets to its end -/

/-- From `r` the thread can return while all calls succeed, whatever it has pushed before. -/
def Finishes (r : ReceiverState) : Prop :=
  ∀ pushed, ∃ t, Lts.Reach step callsSucceed ⟨r, pushed⟩ t ∧ t.thread.call = .returned

theorem finishes_of_step {r : ReceiverState} {next : ReceiverState × ReceiverEffect}
    {l : ReceiverLabel} (hstep : r.step l = some next) (hok : ∀ s, callsSucceed s l)
    (h : Finishes next.1) : Finishes r := by
  intro pushed
  obtain ⟨t, ht, hend⟩ := h (pushed ++ next.2.events)
  refine ⟨t, Relation.ReflTransGen.head ⟨l, hok _, ?_⟩ ht, hend⟩
  simp [step, hstep]

theorem finishes_pushDisconnected {r : ReceiverState} (h : r.call = .pushDisconnected) :
    Finishes r := by
  have hreturned : Finishes { r with call := .returned } := fun _ => ⟨_, .refl, rfl⟩
  have hclose : Finishes { r with call := .close } :=
    finishes_of_step (l := .closed) rfl (fun _ => trivial) hreturned
  have hpush : r.step .pushed =
      some ({ r with call := .close }, .pushFront (lostConnectionEvent r.clientId)) := by
    simp [ReceiverState.step, h]
  exact finishes_of_step hpush (fun _ => trivial) hclose

theorem finishes_recvData {r : ReceiverState} {size buffer : ℕ}
    (hcall : r.call = .recvData size buffer) (hsize : size < 2 ^ 32)
    (hnext : Finishes { r with call := .getClientStatus, unread := r.unread.drop size }) :
    Finishes r := by
  have hrecv : r.step (.recvData true fun _ => 0) =
      some (r.afterRecvData size buffer true fun _ => 0) := by
    simp [ReceiverState.step, hcall]
  refine finishes_of_step hrecv (fun _ => rfl) ?_
  rcases r.afterRecvData_cases hsize buffer true fun _ => 0 with ⟨unread, hr, -⟩ | ⟨-, -, hr⟩ <;>
    rw [hr]
  · exact finishes_pushDisconnected rfl
  · exact finishes_of_step (l := .pushed) rfl (fun _ => trivial) hnext

theorem finishes_malloc {r : ReceiverState} {size : ℕ} (hcall : r.call = .malloc size)
    (hsize : size < 2 ^ 32)
    (hnext : Finishes { r with call := .getClientStatus, unread := r.unread.drop size }) :
    Finishes r := by
  have hmalloc : r.step (.malloc 0) = some ({ r with call := .recvData size 0 }, .malloc 0) := by
    simp [ReceiverState.step, hcall]
  exact finishes_of_step hmalloc (fun _ => trivial) (finishes_recvData rfl hsize hnext)

theorem finishes_recvSize {r : ReceiverState} (hcall : r.call = .recvSize)
    (hnext : 4 ≤ r.unread.length → ∀ m,
      Finishes { r with call := .getClientStatus, unread := r.unread.drop (4 + m) }) :
    Finishes r := by
  have hrecv : r.step (.recvSize true) = some (r.afterRecvSize true, .none) := by
    simp [ReceiverState.step, hcall]
  refine finishes_of_step hrecv (fun _ => rfl) ?_
  rcases r.afterRecvSize_cases true with ⟨unread, hr, -⟩ | ⟨-, hlen, hr⟩ <;> rw [hr]
  · exact finishes_pushDisconnected rfl
  · refine finishes_malloc rfl (value_take_lt _) ?_
    rw [List.drop_drop]
    exact hnext hlen _

/-- While the stream lasts each turn of the loop reads at least a header of it. -/
theorem finishes_getClientStatus (n : ℕ) : ∀ {r : ReceiverState}, r.unread.length ≤ n →
    r.call = .getClientStatus → Finishes r := by
  induction n using Nat.strong_induction_on with
  | h n ih =>
    intro r hn hcall
    have hstatus : r.step (.status true) = some ({ r with call := .poll }, .none) := by
      simp [ReceiverState.step, hcall]
    refine finishes_of_step hstatus (fun _ => rfl) ?_
    refine finishes_of_step (l := .poll .readable) rfl (fun _ => nofun) ?_
    refine finishes_recvSize rfl fun hlen m => ih _ ?_ le_rfl rfl
    have hfour : 4 ≤ r.unread.length := hlen
    show (r.unread.drop (4 + m)).length < n
    rw [List.length_drop]
    omega

/-- Wherever the thread is, it can return while all calls succeed. -/
theorem finishes_of_framesLeft {r : ReceiverState} {fs : List (List UInt8)}
    (h : r.FramesLeft fs) : Finishes r := by
  have hloop : ∀ unread, Finishes { r with call := .getClientStatus, unread } := fun unread =>
    finishes_getClientStatus unread.length le_rfl rfl
  unfold ReceiverState.FramesLeft at h
  cases hcall : r.call with
  | pushConnected =>
    have hpush : r.step .pushed = some ({ r with call := .getClientStatus },
        .pushBack (newConnectionEvent r.clientId) none) := by simp [ReceiverState.step, hcall]
    exact finishes_of_step hpush (fun _ => trivial) (hloop r.unread)
  | getClientStatus => exact finishes_getClientStatus _ le_rfl hcall
  | poll =>
    have hpoll : r.step (.poll .timeout) = some ({ r with call := .getClientStatus }, .none) := by
      simp [ReceiverState.step, hcall]
    exact finishes_of_step hpoll (fun _ => nofun) (hloop r.unread)
  | recvSize => exact finishes_recvSize hcall fun _ _ => hloop _
  | malloc size =>
    rw [hcall] at h
    exact finishes_malloc hcall h.1 (hloop _)
  | recvData size buffer =>
    rw [hcall] at h
    exact finishes_recvData hcall h.1 (hloop _)
  | pushMessage message buffer =>
    have hpush : r.step .pushed = some ({ r with call := .getClientStatus },
        .pushBack (messageEvent r.clientId message) (some buffer)) := by
      simp [ReceiverState.step, hcall]
    exact finishes_of_step hpush (fun _ => trivial) (hloop r.unread)
  | pushDisconnected => exact finishes_pushDisconnected hcall
  | close =>
    have hclose : r.step .closed = some ({ r with call := .returned }, .none) := by
      simp [ReceiverState.step, hcall]
    exact finishes_of_step hclose (fun _ => trivial) fun _ => ⟨_, .refl, rfl⟩
  | returned =>
    intro pushed
    exact ⟨_, .refl, hcall⟩

theorem progress_of_reach {ok : StartReceiving → ReceiverLabel → Prop} (clean : Prop)
    (hok : ∀ s l, ok s l → clean → callsSucceed s l)
    (hlengths : clean → ∀ f ∈ completeFrames sent, f.length < 2 ^ 31)
    (h : Lts.Reach step ok (initial c sent) s) : ∃ ms fs, s.Progress clean c sent ms fs :=
  h.invariant (I := fun s => ∃ ms fs, s.Progress clean c sent ms fs)
    ⟨[], _, progress_initial clean c sent⟩
    fun _ _ _ ⟨_, _, hI⟩ hl hstep => progress_step hI (hok _ _ hl) hlengths hstep

/-- Whatever fails, the events pushed are the beginning of a client's life. -/
theorem pushed_of_reach (h : Lts.Reach step Lts.Any (initial c sent) s) :
    ∃ ms : List Message, ms.map Message.bytes <+: completeFrames sent ∧
      s.pushed <+: clientHistory c ms ∧
      (s.thread.call = .returned → s.pushed = clientHistory c ms) := by
  obtain ⟨ms, fs, hI⟩ := progress_of_reach False (fun _ _ _ => nofun) nofun h
  refine ⟨ms, hI.frames ▸ List.prefix_append _ _, ?_, fun hcall => by rw [hI.pushed, hcall]; rfl⟩
  rw [hI.pushed]
  unfold pushedBefore
  split
  · exact List.nil_prefix
  · exact List.prefix_refl _
  · exact List.prefix_refl _
  · exact List.prefix_append _ _

/-- While all calls succeed the thread can return, and then it has pushed all frames. -/
theorem pushed_all_of_reach (hlengths : ∀ f ∈ completeFrames sent, f.length < 2 ^ 31)
    (h : Lts.Reach step callsSucceed (initial c sent) s) :
    (∃ t, Lts.Reach step callsSucceed s t ∧ t.thread.call = .returned) ∧
    (s.thread.call = .returned → ∃ ms : List Message,
      ms.map Message.bytes = completeFrames sent ∧ s.pushed = clientHistory c ms) := by
  obtain ⟨ms, fs, hI⟩ := progress_of_reach True (fun _ _ hl _ => hl) (fun _ => hlengths) h
  refine ⟨finishes_of_framesLeft hI.left s.pushed, fun hcall => ⟨ms, ?_, ?_⟩⟩
  · rw [hI.frames, hI.ended trivial (by rw [hcall]; rfl), List.append_nil]
  · rw [hI.pushed, hcall]
    rfl

end StartReceiving

/-- **The receiver.** Whatever fails, the thread of a client pushes NEW_CONNECTION, the bodies of
some first complete frames of the stream, and when it has returned one LOST_CONNECTION after them.
If no call fails and the client stays RUNNING, it can always go on until it returns, and then all
complete frames have been pushed. -/
theorem startReceiving_frames (c : ℕ) (sent : List UInt8)
    (hlengths : ∀ f ∈ completeFrames sent, f.length < 2 ^ 31) :
    (∀ s, Lts.Reach StartReceiving.step Lts.Any (.initial c sent) s →
      ∃ ms : List Message, ms.map Message.bytes <+: completeFrames sent ∧
        s.pushed <+: clientHistory c ms ∧
        (s.thread.call = .returned → s.pushed = clientHistory c ms)) ∧
    (∀ s, Lts.Reach StartReceiving.step callsSucceed (.initial c sent) s →
      (∃ t, Lts.Reach StartReceiving.step callsSucceed s t ∧ t.thread.call = .returned) ∧
      (s.thread.call = .returned → ∃ ms : List Message,
        ms.map Message.bytes = completeFrames sent ∧ s.pushed = clientHistory c ms)) :=
  ⟨fun _ hs => StartReceiving.pushed_of_reach hs,
    fun _ hs => StartReceiving.pushed_all_of_reach hlengths hs⟩

/-- A frame of one byte, an empty frame, and a frame that is cut off. -/
theorem startReceiving_frames_cut :
    completeFrames [1, 0, 0, 0, 11, 0, 0, 0, 0, 5, 0, 0, 0, 12] = [[11], []] ∧
    ∃ ms : List Message, ms.map Message.bytes = [[11], []] ∧ ∃ t,
      Lts.Reach StartReceiving.step callsSucceed
        (.initial 4 [1, 0, 0, 0, 11, 0, 0, 0, 0, 5, 0, 0, 0, 12]) t ∧
      t.pushed = clientHistory 4 ms := by
  have hsplit : split (stream [[11], []] ++ [5, 0, 0, 0, 12]) = ([[11], []], [5, 0, 0, 0, 12]) :=
    split_stream_append (by decide) (by decide)
  have hframes : completeFrames [1, 0, 0, 0, 11, 0, 0, 0, 0, 5, 0, 0, 0, 12] = [[11], []] :=
    congrArg Prod.fst hsplit
  have hrun := (startReceiving_frames 4 _ (by rw [hframes]; decide)).2
  obtain ⟨t, ht, hcall⟩ := (hrun _ .refl).1
  obtain ⟨ms, hms, hpushed⟩ := (hrun t ht).2 hcall
  exact ⟨hframes, ms, hms.trans hframes, t, ht, hpushed⟩

end PRShooter
