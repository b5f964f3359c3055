import PRShooter.HostLinearization
import PRShooter.HostOutlets
import PRShooter.SenderOrder
import PRShooter.SentBuffers

/-!
# The host with its server

The threads of the host and those of the server in one process: a call of the host is a step of the
server, and is possible when the mutexes it takes are free. A buffer is handed over by the host as it
was created.

The threads that call the server are joined before `stopServer` is called, so no call comes after it,
and each buffer the host creates is released exactly once (`released_of_process`). What a client is
sent are the replies to its messages and the states of the game, in order (`sent_of_process`).
-/

set_option linter.unusedSectionVars false

namespace PRShooter

open Ownership

variable {D F : Type}

instance [DecidableEq (Outgoing D)] : DecidableEq (OutgoingMessage D) := fun a b =>
  decidable_of_iff (a.data = b.data ∧ a.content = b.content) <| by
    cases a
    cases b
    simp

/-! ## The process -/

/-- The step of the server that a call of the host is. -/
def HostCall.label : HostCall D → ServerLabel (OutgoingMessage D)
  | .sendTo message clientId => .sendTo ⟨message, clientId⟩
  | .sendToEveryone message => .sendToEveryone message
  | .setStop => .setStop
  | .stopReceivingThreads => .stopReceivingThreads

/-- A step of the listener, of a receiver or of the sender. -/
def ServerLabel.ofServer {M : Type} : ServerLabel M → Bool
  | .accept _ | .addClient _ | .closeSocket _ | .stopClient _ | .sender _ => true
  | _ => false

/-- The host process. -/
structure HostProcess (D F : Type) where
  host : HostThreads D F
  server : SentBuffers (OutgoingMessage D)

inductive ProcessLabel (D : Type) where
  | host (l : HostLabel)
  | server (l : ServerLabel (OutgoingMessage D))

variable [Zero D] [One D] [Zero F] [NatCast D] [IntCast D] [OfScientific D] [Add D] [Sub D] [Mul D]
  [Div D] [Neg D] [LT D] [LE D] [DecidableLT D] [DecidableLE D] [HasSqrt D]

namespace HostProcess

def initial (m : GameMap D) (first : ℤ) : HostProcess D F := ⟨.initial m first, .initial⟩

/-- One step of a thread of the process. -/
def step [Trig F D] [ToInt D] [OfWord 64 D] [OfWord 32 F] [ToWord 64 D] [ToWord 32 F]
    [DecidableEq (Outgoing D)] (p : HostProcess D F) : ProcessLabel D → Option (HostProcess D F)
  | .host l =>
    (p.host.step l).bind fun host =>
      let made := host.calls.drop p.host.calls.length
      (Lts.run SentBuffers.step (made.map HostCall.label) p.server).map fun server => ⟨host, server⟩
  | .server l =>
    if l.ofServer then (p.server.step l).map fun server => { p with server } else none

end HostProcess

/-! ## What a step of the server leaves alone -/

section Server

variable {M : Type}

/-- The calls and the flag are those of the host. -/
structure Server.Uncalled (s t : Server M) : Prop where
  stopped : t.stopped = s.stopped
  sendTo : sendToCalls t.log = sendToCalls s.log
  sendToEveryone : everyoneMessages t.log = everyoneMessages s.log

variable {s t : Server M}

theorem Server.uncalled_send (ok : Bool) (job : Job M) (next : Sender M) :
    s.Uncalled { s.send ok job with sender := next } := by
  unfold Server.send
  split
  · split_ifs
    · exact ⟨rfl, by simp [ServerEvent.sendToCall], by simp [ServerEvent.everyoneMessage]⟩
    · exact ⟨rfl, rfl, rfl⟩
  · exact ⟨rfl, rfl, rfl⟩

theorem Server.uncalled_senderStep {ok : Bool} (h : s.senderStep ok = some t) : s.Uncalled t := by
  cases hs : s.sender <;> simp only [Server.senderStep, hs, reduceCtorEq] at h
  case popIndividual =>
    obtain ⟨⟨msg, rest⟩, -, rfl⟩ := Option.map_eq_some_iff.mp h
    exact ⟨rfl, by simp [ServerEvent.sendToCall], by simp [ServerEvent.everyoneMessage]⟩
  case getClient msg =>
    obtain ⟨client, -, rfl⟩ := Option.map_eq_some_iff.mp h
    exact ⟨rfl, rfl, rfl⟩
  case serve jobs =>
    cases jobs with
    | nil => exact Option.some.inj h ▸ ⟨rfl, rfl, rfl⟩
    | cons job jobs =>
      simp only at h
      split_ifs at h
      · exact Option.some.inj h ▸
          ⟨rfl, by simp [ServerEvent.sendToCall], by simp [ServerEvent.everyoneMessage]⟩
      · exact Option.some.inj h ▸ ⟨rfl, rfl, rfl⟩
  case sendSize job jobs | sendData job jobs =>
    exact Option.some.inj h ▸ Server.uncalled_send ok job _
  case checkQueue | popEveryone =>
    exact Option.some.inj h ▸
      ⟨rfl, by simp [ServerEvent.sendToCall], by simp [ServerEvent.everyoneMessage]⟩
  all_goals exact Option.some.inj h ▸ ⟨rfl, rfl, rfl⟩

theorem Server.uncalled_of_step {l : ServerLabel M} (hl : l.ofServer = true)
    (h : s.step l = some t) : s.Uncalled t := by
  cases l with
  | sendTo | sendToEveryone | setStop | stopReceivingThreads => cases hl
  | sender ok => exact Server.uncalled_senderStep h
  | accept fd | stopClient i =>
    simp only [Server.step] at h
    split_ifs at h
    exact Option.some.inj h ▸ ⟨rfl, rfl, rfl⟩
  | addClient created | closeSocket i =>
    simp only [Server.step] at h
    split at h
    · exact Option.some.inj h ▸ ⟨rfl, rfl, rfl⟩
    · cases h

/-- The sender reads and releases buffers; it acquires none. -/
theorem Server.acquired_senderHeap (s : Server M) (popped : Option M) :
    acquired (s.senderHeap popped) = [] := by
  have hreleased : ∀ ms : List M, acquired (ms.map Event.released) = [] := by
    intro ms
    induction ms with
    | nil => rfl
    | cons m ms ih => exact ih
  unfold Server.senderHeap
  split
  next job _ _ => cases job.payload.data <;> rfl
  · exact hreleased _
  · exact hreleased _
  · rfl

namespace SentBuffers

variable [DecidableEq M] {s t : SentBuffers M}

/-- A step of the server acquires no buffer, and the sender does not start again. -/
theorem step_ofServer {l : ServerLabel M} (hl : l.ofServer = true) (h : s.step l = some t) :
    s.server.step l = some t.server ∧ acquired t.heap = acquired s.heap ∧
      (s.server.sender = .done → t.server.sender = .done) := by
  cases l with
  | sendTo | sendToEveryone | setStop | stopReceivingThreads => cases hl
  | sender ok =>
    obtain ⟨server, hserver, rfl⟩ := Option.map_eq_some_iff.mp h
    refine ⟨hserver, by simp [Server.acquired_senderHeap], fun hdone => ?_⟩
    simp [Server.step, Server.senderStep, hdone] at hserver
  | accept | addClient | closeSocket | stopClient =>
    unfold step at h
    obtain ⟨server, hserver, rfl⟩ := Option.map_eq_some_iff.mp h
    exact ⟨hserver, rfl, fun hdone => (tableStep_of_step rfl hserver).sender.trans hdone⟩

end SentBuffers

end Server

/-! ## The host and the server together -/

/-- The individual message of a call. -/
def HostCall.individual : HostCall D → Option (IndividualMessage (OutgoingMessage D))
  | .sendTo message clientId => some ⟨message, clientId⟩
  | _ => none

/-- The message of a call to everyone. -/
def HostCall.everyone : HostCall D → Option (OutgoingMessage D)
  | .sendToEveryone message => some message
  | _ => none

theorem HostCall.filterMap_append {α : Type} (f : HostCall D → Option α) (calls : List (HostCall D))
    (call : HostCall D) :
    (calls ++ [call]).filterMap f = calls.filterMap f ++ (f call).toList := by
  cases hf : f call <;> simp [List.filterMap_append, hf]

/-- What a call of the host does to the server. -/
structure SentBuffers.Called [DecidableEq (Outgoing D)] (call : HostCall D)
    (s t : SentBuffers (OutgoingMessage D)) : Prop where
  acquired : acquired t.heap = acquired s.heap ++ call.message.toList
  sendTo : sendToCalls t.server.log = sendToCalls s.server.log ++ call.individual.toList
  sendToEveryone :
    everyoneMessages t.server.log = everyoneMessages s.server.log ++ call.everyone.toList

theorem SentBuffers.called_of_step [DecidableEq (Outgoing D)] {call : HostCall D}
    {s t : SentBuffers (OutgoingMessage D)} (h : s.step call.label = some t) : Called call s t := by
  cases call with
  | sendTo message clientId =>
    simp only [HostCall.label, step] at h
    split_ifs at h
    obtain ⟨server, hserver, rfl⟩ := Option.map_eq_some_iff.mp h
    simp only [Server.step] at hserver
    split_ifs at hserver
    obtain rfl := Option.some.inj hserver
    exact ⟨by simp [HostCall.message], by simp [ServerEvent.sendToCall, HostCall.individual],
      by simp [ServerEvent.everyoneMessage, HostCall.everyone]⟩
  | sendToEveryone message =>
    simp only [HostCall.label, step] at h
    split_ifs at h
    obtain ⟨server, hserver, rfl⟩ := Option.map_eq_some_iff.mp h
    simp only [Server.step] at hserver
    split_ifs at hserver
    obtain rfl := Option.some.inj hserver
    refine ⟨?_, by simp [ServerEvent.sendToCall, HostCall.individual],
      by simp [ServerEvent.everyoneMessage, HostCall.everyone]⟩
    cases s.server.everyoneData <;> simp [acquired, HostCall.message]
  | setStop | stopReceivingThreads =>
    unfold step at h
    obtain ⟨server, hserver, rfl⟩ := Option.map_eq_some_iff.mp h
    have hlog := (tableStep_of_step rfl hserver).log
    exact ⟨by simp [HostCall.message], by simp [hlog, HostCall.individual],
      by simp [hlog, HostCall.everyone]⟩

namespace HostProcess

variable [Trig F D] [ToInt D] [OfWord 64 D] [OfWord 32 F] [ToWord 64 D] [ToWord 32 F]
  [DecidableEq (Outgoing D)] {p p' : HostProcess D F}

/-- What holds between the steps. -/
structure Inv (p : HostProcess D F) : Prop where
  joined : p.host.Joined
  numbered : p.host.Numbered
  ok : p.server.Ok
  stopped : p.server.server.stopped = true → 6 ≤ p.host.main.stage
  done : p.host.main = .finished → p.server.server.sender = .done
  acquired : acquired p.server.heap = p.host.handed
  sendTo : sendToCalls p.server.server.log = p.host.calls.filterMap HostCall.individual
  sendToEveryone : everyoneMessages p.server.server.log = p.host.calls.filterMap HostCall.everyone

theorem inv_initial (m : GameMap D) (first : ℤ) : (initial m first : HostProcess D F).Inv where
  joined := ⟨by simp [initial, HostThreads.initial, MainPoint.stage],
    by simp [initial, HostThreads.initial, MainPoint.stage],
    by simp [initial, HostThreads.initial, MainPoint.stage]⟩
  numbered := .nil
  ok := SentBuffers.ok_initial
  stopped := nofun
  done := nofun
  acquired := rfl
  sendTo := rfl
  sendToEveryone := rfl

/-- A step of the host and the calls made in it. -/
theorem step_host {l : HostLabel} (hstep : p.step (.host l) = some p') :
    p.host.step l = some p'.host ∧
      Lts.run SentBuffers.step
        ((p'.host.calls.drop p.host.calls.length).map HostCall.label) p.server = some p'.server := by
  obtain ⟨host, hhost, hrest⟩ := Option.bind_eq_some_iff.mp hstep
  obtain ⟨server, hserver, rfl⟩ := Option.map_eq_some_iff.mp hrest
  exact ⟨hhost, hserver⟩

/-- A call of the host is one step of the server. -/
theorem step_call {call : HostCall D} {l : HostLabel} (hstep : p.step (.host l) = some p')
    (hcalls : p'.host.calls = p.host.calls ++ [call]) :
    p.server.step call.label = some p'.server := by
  have hrun := (step_host hstep).2
  rw [hcalls, List.drop_left] at hrun
  simpa [Option.bind_some] using (Option.bind_eq_some_iff.mp hrun)

/-- Only `stopServer` raises the flag of the server. -/
theorem called_stopped {call : HostCall D} {l : HostLabel} (hstep : p.step (.host l) = some p')
    (hcalls : p'.host.calls = p.host.calls ++ [call]) (hmessage : call.message.isSome = true) :
    p'.server.server.stopped = p.server.server.stopped := by
  have hcall := step_call hstep hcalls
  cases call with
  | setStop | stopReceivingThreads => cases hmessage
  | sendTo | sendToEveryone =>
    simp only [HostCall.label, SentBuffers.step] at hcall
    split_ifs at hcall
    obtain ⟨server, hserver, heq⟩ := Option.map_eq_some_iff.mp hcall
    simp only [Server.step] at hserver
    split_ifs at hserver
    rw [← heq, ← Option.some.inj hserver]

/-- A thread that makes a call has not been joined, so the server has not been stopped. -/
theorem Inv.running (hinv : p.Inv)
    (hcalling : p.host.receive ≠ .finished ∨ p.host.send ≠ .finished) :
    p.server.server.stopped = false := by
  refine Bool.eq_false_iff.mpr fun hstopped => ?_
  have hstage := hinv.stopped hstopped
  rcases hcalling with hreceive | hsend
  · exact hreceive (hinv.joined.receive (by omega))
  · exact hsend (hinv.joined.send (by omega))

theorem inv_host {l : HostLabel} (hinv : p.Inv) (hstep : p.step (.host l) = some p') : p'.Inv := by
  obtain ⟨hhost, hrun⟩ := step_host hstep
  have hout := HostThreads.outlet_of_step hhost
  have hjoined := HostThreads.joined_step hinv.joined hhost
  have hnumbered := hinv.numbered.outlet hout
  -- a step of the host without a call
  have hsilent : p'.host.calls = p.host.calls →
      (p'.host.main = p.host.main ∨ p.host.main.stage < 6 ∧ p'.host.main.stage < 6) → p'.Inv := by
    intro hcalls hmain
    have hserver : p.server = p'.server := by
      rw [hcalls, List.drop_length] at hrun
      exact Option.some.inj hrun
    refine ⟨hjoined, hnumbered, hserver ▸ hinv.ok, fun hstopped => ?_, fun hfinished => ?_, ?_, ?_,
      ?_⟩
    · have hstage := hinv.stopped (hserver ▸ hstopped)
      rcases hmain with hmain | ⟨hlt, -⟩
      · rwa [hmain]
      · omega
    · rcases hmain with hmain | ⟨-, hlt⟩
      · exact hserver ▸ hinv.done (hmain ▸ hfinished)
      · rw [hfinished] at hlt
        exact absurd hlt (by decide)
    · rw [← hserver, hinv.acquired, HostThreads.handed, HostThreads.handed, hcalls]
    · rw [← hserver, hcalls, hinv.sendTo]
    · rw [← hserver, hcalls, hinv.sendToEveryone]
  -- a step with a call
  have hcalled : ∀ call : HostCall D, p'.host.calls = p.host.calls ++ [call] →
      sentBeforeStop p.server call.label →
      (p'.server.server.stopped = true → 6 ≤ p'.host.main.stage) →
      (p'.host.main = .finished → p'.server.server.sender = .done) → p'.Inv := by
    intro call hcalls hbefore hstopped hdone
    have hcall := step_call hstep hcalls
    obtain ⟨hacquired, hsendTo, hsendToEveryone⟩ := SentBuffers.called_of_step hcall
    exact
      { joined := hjoined
        numbered := hnumbered
        ok := SentBuffers.ok_step hinv.ok hbefore hcall
        stopped := hstopped
        done := hdone
        acquired := by
          rw [hacquired, hinv.acquired, HostThreads.handed, HostThreads.handed, hcalls,
            HostCall.filterMap_append]
        sendTo := by rw [hsendTo, hinv.sendTo, hcalls, HostCall.filterMap_append]
        sendToEveryone := by
          rw [hsendToEveryone, hinv.sendToEveryone, hcalls, HostCall.filterMap_append] }
  cases hout with
  | silent hmain hcalls => exact hsilent hcalls hmain
  | create content hmain hcalls => exact hsilent hcalls (.inl hmain)
  | sendNew _ _ hcalling hmain hcalls | sendTo _ _ hcalling hmain hcalls =>
    have hrunning := hinv.running (.inl hcalling)
    refine hcalled _ hcalls hrunning (fun hstopped => ?_) fun hfinished => ?_
    · rw [(called_stopped hstep hcalls rfl).trans hrunning] at hstopped
      cases hstopped
    · exact absurd (hinv.joined.receive (by rw [← hmain, hfinished]; decide)) hcalling
  | sendToEveryone _ hcalling hmain hcalls =>
    have hrunning := hinv.running (.inr hcalling)
    refine hcalled _ hcalls hrunning (fun hstopped => ?_) fun hfinished => ?_
    · rw [(called_stopped hstep hcalls rfl).trans hrunning] at hstopped
      cases hstopped
    · exact absurd (hinv.joined.send (by rw [← hmain, hfinished]; decide)) hcalling
  | setStop hmain hcalls =>
    refine hcalled _ hcalls trivial (fun _ => ?_) fun hfinished => ?_
    · rw [hmain]
      decide
    · rw [hmain] at hfinished
      cases hfinished
  | stopReceivingThreads hmain hcalls =>
    refine hcalled _ hcalls trivial (fun _ => ?_) fun _ => ?_
    · rw [hmain.2]
      decide
    · have hcall := step_call hstep hcalls
      obtain ⟨server, hserver, heq⟩ := Option.map_eq_some_iff.mp hcall
      have hsender : p.server.server.sender = .done := by
        simp only [HostCall.label, Server.step] at hserver
        split at hserver
        next hdone => exact hdone
        next => cases hserver
      rw [← heq]
      exact (tableStep_of_step rfl hserver).sender.trans hsender

theorem inv_server {l : ServerLabel (OutgoingMessage D)} (hinv : p.Inv)
    (hstep : p.step (.server l) = some p') : p'.Inv := by
  simp only [step] at hstep
  split_ifs at hstep with hl
  obtain ⟨server, hserver, rfl⟩ := Option.map_eq_some_iff.mp hstep
  obtain ⟨hmoved, hacquired, hdone⟩ := SentBuffers.step_ofServer hl hserver
  have huncalled := Server.uncalled_of_step hl hmoved
  exact
    { joined := hinv.joined
      numbered := hinv.numbered
      ok := SentBuffers.ok_step hinv.ok (by cases l <;> trivial) hserver
      stopped := fun hstopped => hinv.stopped (huncalled.stopped ▸ hstopped)
      done := fun hfinished => hdone (hinv.done hfinished)
      acquired := hacquired.trans hinv.acquired
      sendTo := huncalled.sendTo.trans hinv.sendTo
      sendToEveryone := huncalled.sendToEveryone.trans hinv.sendToEveryone }

theorem inv_of_reach {m : GameMap D} {first : ℤ} (h : Lts.Reach step Lts.Any (initial m first) p) :
    p.Inv := by
  refine h.invariant (inv_initial m first) fun p l p' hinv _ hstep => ?_
  cases l with
  | host l => exact inv_host hinv hstep
  | server l => exact inv_server hinv hstep

/-- A buffer is handed over once. -/
theorem Inv.fresh (hinv : p.Inv) {l : HostLabel} {h' : HostThreads D F} {call : HostCall D}
    {message : OutgoingMessage D} (hstep : p.host.step l = some h')
    (hcalls : h'.calls = p.host.calls ++ [call]) (hmessage : call.message = some message) :
    message ∉ Ownership.acquired p.server.heap := by
  intro hmem
  rw [hinv.acquired] at hmem
  have hnumbered := hinv.numbered.outlet (HostThreads.outlet_of_step hstep)
  have hnodup := hnumbered.nodup_iff.mpr List.nodup_range
  have hhanded : h'.handed = p.host.handed ++ [message] := by
    rw [HostThreads.handed, HostThreads.handed, hcalls, HostCall.filterMap_append, hmessage,
      Option.toList_some]
  rw [hhanded, List.map_append, List.map_append] at hnodup
  have hapart := (List.nodup_append.mp (List.nodup_append.mp hnodup).1).2.2
  exact hapart _ (List.mem_map_of_mem hmem) message.data (by simp) rfl

/-! ## The host and the server apart -/

theorem host_of_reach {m : GameMap D} {first : ℤ} (h : Lts.Reach step Lts.Any (initial m first) p) :
    Lts.Reach HostThreads.step Lts.Any (.initial m first) p.host := by
  refine h.invariant (I := fun p => Lts.Reach HostThreads.step Lts.Any (.initial m first) p.host)
    .refl fun p l p' hhost _ hstep => ?_
  cases l with
  | host l => exact hhost.tail trivial (step_host hstep).1
  | server l =>
    simp only [step] at hstep
    split_ifs at hstep
    obtain ⟨server, -, rfl⟩ := Option.map_eq_some_iff.mp hstep
    exact hhost

theorem server_of_step {M : Type} [DecidableEq M] {s t : SentBuffers M} {l : ServerLabel M}
    (h : s.step l = some t) : s.server.step l = some t.server := by
  cases l with
  | sendTo | sendToEveryone =>
    simp only [SentBuffers.step] at h
    split_ifs at h
    obtain ⟨server, hserver, rfl⟩ := Option.map_eq_some_iff.mp h
    exact hserver
  | _ =>
    simp only [SentBuffers.step] at h
    obtain ⟨server, hserver, rfl⟩ := Option.map_eq_some_iff.mp h
    exact hserver

theorem server_of_reach {m : GameMap D} {first : ℤ}
    (h : Lts.Reach step Lts.Any (initial m first) p) :
    Lts.Reach Server.step Lts.Any .initial p.server.server := by
  refine h.invariant (I := fun p => Lts.Reach Server.step Lts.Any .initial p.server.server) .refl
    fun p l p' hserver _ hstep => ?_
  cases l with
  | host l =>
    refine hserver.trans ((Lts.Reach.of_run (step_host hstep).2).invariant
      (I := fun s => Lts.Reach Server.step Lts.Any p.server.server s.server) .refl
      fun s l t hs _ hl => hs.tail trivial (server_of_step hl))
  | server l =>
    simp only [step] at hstep
    split_ifs at hstep
    obtain ⟨server, hl, rfl⟩ := Option.map_eq_some_iff.mp hstep
    exact hserver.tail trivial (server_of_step hl)

end HostProcess

/-! ## Every run of the process -/

section Runs

variable [Trig F D] [ToInt D] [OfWord 64 D] [OfWord 32 F] [ToWord 64 D] [ToWord 32 F]
  [DecidableEq (Outgoing D)]

/-- **Buffers of the process.** Whatever the schedule, the host never hands over a buffer twice, the
buffers are read and released only while the server holds them, and when the destructor of the host
has returned from `stopServer` every buffer that was created has been released exactly once. -/
theorem released_of_process (m : GameMap D) (first : ℤ) (p : HostProcess D F)
    (hreach : Lts.Reach HostProcess.step Lts.Any (.initial m first) p) :
    (∀ l h' call message, p.host.step l = some h' → h'.calls = p.host.calls ++ [call] →
      call.message = some message → message ∉ acquired p.server.heap) ∧
    History.EachEvent InTime p.server.heap ∧
    (p.host.main = .finished →
      ((released p.server.heap).map OutgoingMessage.data).Perm (List.range p.host.created)) := by
  have hinv := HostProcess.inv_of_reach hreach
  refine ⟨fun _ _ _ _ => hinv.fresh, hinv.ok.accounts.inTime, fun hfinished => ?_⟩
  have hstage : p.host.main.stage = 7 := by rw [hfinished]; rfl
  have hheld : p.host.held = [] := by
    unfold HostThreads.held
    rw [hinv.joined.receive (by omega), hinv.joined.send (by omega)]
    rfl
  have hnumbered := hinv.numbered
  unfold HostThreads.Numbered at hnumbered
  rw [hheld, List.append_nil, ← hinv.acquired] at hnumbered
  exact ((hinv.ok.released (hinv.done hfinished)).2.map _).trans hnumbered

/-- The replies to one client. -/
def repliesTo (i : ℕ) (replies : List (Outgoing D × ℕ)) : List (Outgoing D) :=
  (replies.filter fun reply => reply.2 = i).map Prod.fst

theorem content_messagesTo (i : ℕ) (calls : List (HostCall D)) :
    (messagesTo i (calls.filterMap HostCall.individual)).map OutgoingMessage.content
      = repliesTo i (calls.filterMap HostCall.reply) := by
  induction calls with
  | nil => rfl
  | cons call calls ih =>
    cases call with
    | sendTo message clientId =>
      by_cases hi : clientId = i <;>
        simpa [HostCall.individual, HostCall.reply, messagesTo, repliesTo, hi] using ih
    | _ => exact ih

theorem content_everyone (calls : List (HostCall D)) :
    (calls.filterMap HostCall.everyone).map OutgoingMessage.content
      = calls.filterMap HostCall.broadcast := by
  induction calls with
  | nil => rfl
  | cons call calls ih =>
    cases call with
    | sendToEveryone message => simpa [HostCall.everyone, HostCall.broadcast] using ih
    | _ => exact ih

theorem message_sendToEveryoneCalls {M : Type} (log : List (ServerEvent M)) :
    (sendToEveryoneCalls log).map Broadcast.message = everyoneMessages log := by
  rw [sendToEveryoneCalls, List.map_map]
  exact List.zipIdx_map_fst 0 _

/-- The order of the sender, and that of the host behind it. -/
theorem HostProcess.sent_explained {m : GameMap D} {first : ℤ} {p : HostProcess D F}
    {a : AtomicHost D F} (hreach : Lts.Reach HostProcess.step Lts.Any (.initial m first) p)
    (hex : p.host.Explains a) (i : ℕ) :
    (messagesTo i (individualAttempts p.server.server.log)).map OutgoingMessage.content
        <+: repliesTo i a.replies ∧
      ((broadcastAttempts i p.server.server.log).map fun b => b.map fun b => b.message.content).Sublist
        (a.states.map some) := by
  have hinv := HostProcess.inv_of_reach hreach
  have horder := (Server.senderInv_of_reach (HostProcess.server_of_reach hreach)).senderOrder
  constructor
  · have hattempts := (horder.individual i).map OutgoingMessage.content
    rw [hinv.sendTo, content_messagesTo] at hattempts
    refine hattempts.trans ?_
    rw [hex.replies]
    simp [repliesTo, HostThreads.replies]
  · have hattempts := (horder.broadcast i).map fun b => b.map fun b => b.message.content
    refine hattempts.trans ?_
    have hcalls : ((sendToEveryoneCalls p.server.server.log).map some).map
        (fun b => b.map fun b => b.message.content) = p.host.broadcasts.map some := by
      rw [HostThreads.broadcasts, ← content_everyone, ← hinv.sendToEveryone,
        ← message_sendToEveryoneCalls]
      simp [Function.comp_def]
    rw [hcalls, hex.states]
    exact (List.sublist_append_left _ _).map some

/-- What the threads of the host have done in a process. -/
theorem HostProcess.explained_of_reach {m : GameMap D} {first : ℤ} {p : HostProcess D F}
    (hreach : Lts.Reach HostProcess.step Lts.Any (.initial m first) p) :
    ∃ es a, Lts.run AtomicHost.step es (.initial m : AtomicHost D F) = some a ∧
      p.host.Explains a :=
  (HostProcess.host_of_reach hreach).simulation (HostThreads.explains_initial m first)
    fun _ _ _ _ hex _ hstep => HostThreads.catchesUp_step hex hstep

/-- **What a client is sent.** In every state of every run there is a run of the atomic host that
explains what the threads of the host have done, such that what the sender has attempted to write to a
client is a prefix of the replies to it, and a subsequence of the states of the game in the order of
the game. -/
theorem sent_of_process (m : GameMap D) (first : ℤ) (p : HostProcess D F)
    (hreach : Lts.Reach HostProcess.step Lts.Any (.initial m first) p) :
    ∃ es a, Lts.run AtomicHost.step es (.initial m : AtomicHost D F) = some a ∧
      p.host.Explains a ∧ ∀ i,
      (messagesTo i (individualAttempts p.server.server.log)).map OutgoingMessage.content
        <+: repliesTo i a.replies ∧
      ((broadcastAttempts i p.server.server.log).map fun b => b.map fun b => b.message.content).Sublist
        (a.states.map some) := by
  obtain ⟨es, a, hrun, hex⟩ := HostProcess.explained_of_reach hreach
  exact ⟨es, a, hrun, hex, HostProcess.sent_explained hreach hex⟩

end Runs

/-! ## A run of the process -/

noncomputable instance : DecidableEq (Outgoing ℝ) := Classical.decEq _

/-- Two clients connect, and the host is told so by the second one. -/
def joinedRun : List (ProcessLabel ℝ) :=
  [.server (.accept 5), .server (.addClient true), .server (.accept 6), .server (.addClient true)]
    ++ List.replicate 8 (.host (.receive ⟨.newConnection, 1, .ofBytes []⟩ Rehash.front 0))

/-- The sender gets to the state for the second client. -/
def shownRun : List (ProcessLabel ℝ) :=
  List.replicate 5 (.host .send) ++ List.replicate 34 (.server (.sender true))

/-- The game that is serialized. -/
def joinedGame : Game ℝ ℝ := createNewPlayer Rehash.front (.initial blankMap) 1

/-- The second client is sent its WELCOME, the map and the state in which it has joined. -/
theorem sent_of_process_shown : ∃ p es a,
    Lts.run HostProcess.step (joinedRun ++ shownRun) (.initial blankMap 0 : HostProcess ℝ ℝ)
      = some p ∧
    Lts.run AtomicHost.step es (.initial blankMap : AtomicHost ℝ ℝ) = some a ∧
    p.host.Explains a ∧ [.welcome 1, .map blankMap] <+: repliesTo 1 a.replies ∧
    [some (.gameState (serializeGameState joinedGame))].Sublist (a.states.map some) := by
  have hlog : (Lts.run HostProcess.step (joinedRun ++ shownRun)
      (.initial blankMap 0 : HostProcess ℝ ℝ)).map (fun p =>
        ((messagesTo 1 (individualAttempts p.server.server.log)).map OutgoingMessage.content,
          (broadcastAttempts 1 p.server.server.log).map fun b => b.map fun b => b.message.content))
      = some ([.welcome 1, .map blankMap], [some (.gameState (serializeGameState joinedGame))]) := rfl
  obtain ⟨p, hrun, hboth⟩ := Option.map_eq_some_iff.mp hlog
  obtain ⟨hreplies, hstates⟩ := Prod.mk.inj hboth
  obtain ⟨es, a, hatomic, hex, hsent⟩ := sent_of_process _ 0 p (.of_run hrun)
  exact ⟨p, es, a, hrun, hatomic, hex, hreplies ▸ (hsent 1).1, hstates ▸ (hsent 1).2⟩

/-- The main thread stops the others and calls `stopServer`. -/
def shutdown : List HostLabel :=
  [.interrupt, .main, .main, .receive ⟨.empty, 0, .ofBytes []⟩ Rehash.front 0, .send,
    .update 0 0 Rehash.front, .main, .main, .main, .main]

/-- The host of `busyHost` is interrupted before the sender has sent anything. -/
def interruptedRun : List (ProcessLabel ℝ) :=
  [.server (.accept 5), .server (.addClient true)] ++ (busyHost ++ shutdown).map .host
    ++ [.server (.sender true), .server (.sender true), .host .main]

theorem released_of_process_interrupted : ∃ p,
    Lts.run HostProcess.step interruptedRun (.initial ⟨[], 0, 0, [], []⟩ 0 : HostProcess ℝ ℝ)
      = some p ∧
    ((released p.server.heap).map OutgoingMessage.data).Perm [0, 1, 2] := by
  obtain ⟨p, hrun, hfinished, hcreated⟩ : ∃ p, Lts.run HostProcess.step interruptedRun
      (.initial ⟨[], 0, 0, [], []⟩ 0 : HostProcess ℝ ℝ) = some p ∧ p.host.main = .finished ∧
      p.host.created = 3 := ⟨_, rfl, rfl, rfl⟩
  have hreleased := (released_of_process _ 0 p (.of_run hrun)).2.2 hfinished
  rw [hcreated] at hreleased
  exact ⟨p, hrun, hreleased⟩

end PRShooter
