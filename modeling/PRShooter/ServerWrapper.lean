import PRShooter.ServerThreads

/-!
# Starting and stopping the server

`Server::run`, `Server::stop`, `Server::isRunning` and `Server::sendMessageToEveryone` of
`Host/server_wrapper.cpp` over the threads of the server. `runServer` starts with fresh queues, but
`message_to_everyone` is a static variable that nothing initialises again, and `running` is never
reset: after the first `stop` the wrapper still says that the server is running
(`consistent_iff_never_stopped`).

Between two calls the threads of the server take any of their steps. A call of `stop` carries the
steps they take until they have been joined.
-/

namespace PRShooter

/-- What `runServer` returns: 0, 1 if there is no listener, 2 if there is no sender. -/
inductive RunServer where
  | started
  | noListener
  | noSender
  deriving DecidableEq

/-- What a call of `Server::run` finds and does. -/
structure RunCall where
  /-- Of the calls of `run` and `stop`, the one before was `stop`. -/
  afterStop : Bool
  /-- It calls `runServer`. -/
  runServer : Bool
  /-- `message_to_everyone.data` is not `NULL`. -/
  pending : Bool
  deriving DecidableEq

/-- A step of a thread of the server, or a `sendTo` of the host. -/
def ServerLabel.ofThreads {M : Type} : ServerLabel M → Bool
  | .sendToEveryone _ | .setStop | .stopReceivingThreads => false
  | _ => true

namespace Server

variable {M : Type}

/-- `runServer`, and the end of its threads if it fails. -/
def runServer (s : Server M) : RunServer → Server M
  | .started => { initial with everyone := s.everyone }
  | .noListener | .noSender =>
    { initial with everyone := s.everyone, stopped := true, sender := .done }

/-- `clearEverything`. -/
def clearEverything (s : Server M) : Server M := { s with outgoing := [], clients := [] }

/-- `stopServer`, with the steps of the threads until they have been joined. -/
def stopServer (s : Server M) (threads : List (ServerLabel M)) : Option (Server M) :=
  ((s.step .setStop).bind (Lts.run step threads)).bind fun s =>
    match s.sender with
    | .done => some s.clearEverything
    | _ => none

end Server

/-- The static state of the wrapper and of the server. `started` says whether `runServer` has
started threads that have not been joined, `stopCalls` what it was at each call of `stopServer`. -/
structure ServerWrapper (M : Type) where
  running : Bool
  server : Server M
  started : Bool
  afterStop : Bool
  runCalls : List RunCall
  stopCalls : List Bool

inductive WrapperLabel (M : Type) where
  | run (result : RunServer)
  | sendMessageToEveryone (message : M)
  | stop (threads : List (ServerLabel M))
  | threads (label : ServerLabel M)

namespace ServerWrapper

variable {M : Type}

/-- Before the first call. -/
def initial : ServerWrapper M :=
  { running := false, server := { Server.initial with stopped := true, sender := .done },
    started := false, afterStop := false, runCalls := [], stopCalls := [] }

/-- `Server::isRunning`. -/
def isRunning (s : ServerWrapper M) : Bool := s.running

/-- `Server::run`. -/
def run (s : ServerWrapper M) (result : RunServer) : ServerWrapper M :=
  let s := { s with
    afterStop := false
    runCalls := s.runCalls ++ [⟨s.afterStop, !s.isRunning, s.server.everyone.isSome⟩] }
  if s.isRunning then s
  else
    let s := { s with server := s.server.runServer result }
    match result with
    | .started => { s with running := true, started := true }
    | .noListener | .noSender => s

/-- `Server::stop`. -/
def stop (s : ServerWrapper M) (threads : List (ServerLabel M)) : Option (ServerWrapper M) :=
  let s := { s with afterStop := true }
  if s.isRunning then
    (s.server.stopServer threads).map fun server =>
      { s with server, started := false, stopCalls := s.stopCalls ++ [s.started] }
  else some s

/-- One call, or a step of the threads between two calls. -/
def step (s : ServerWrapper M) : WrapperLabel M → Option (ServerWrapper M)
  | .run result => some (s.run result)
  | .sendMessageToEveryone message =>
    if s.isRunning then
      (s.server.step (.sendToEveryone message)).map fun server => { s with server }
    else none
  | .stop threads => if threads.all ServerLabel.ofThreads then s.stop threads else none
  | .threads label =>
    if s.started ∧ label.ofThreads then
      (s.server.step label).map fun server => { s with server }
    else none

/-- `isRunning` tells whether the server has been started and not stopped, `stopServer` is called
only then, and a `run` after a `stop` calls `runServer` without a broadcast that is left over. -/
structure Consistent (s : ServerWrapper M) : Prop where
  isRunning : s.isRunning = s.started
  stopServer : ∀ started ∈ s.stopCalls, started = true
  run : ∀ call ∈ s.runCalls, call.afterStop = true → call.runServer = true ∧ call.pending = false

/-- `stop` is called only while there is nothing to stop. -/
def NothingToStop (s : ServerWrapper M) : WrapperLabel M → Prop
  | .stop _ => s.running = false
  | _ => True

variable {s t : ServerWrapper M} {l : WrapperLabel M}

/-! ## What a call does -/

theorem run_of_isRunning (h : s.isRunning = true) (result : RunServer) :
    s.run result = { s with
      afterStop := false
      runCalls := s.runCalls ++ [⟨s.afterStop, false, s.server.everyone.isSome⟩] } := by
  have hrunning : s.running = true := h
  simp [run, isRunning, hrunning]

theorem run_of_not_isRunning (h : s.isRunning = false) (result : RunServer) :
    s.run result = { s with
      running := decide (result = .started)
      server := s.server.runServer result
      started := s.started || decide (result = .started)
      afterStop := false
      runCalls := s.runCalls ++ [⟨s.afterStop, true, s.server.everyone.isSome⟩] } := by
  have hrunning : s.running = false := h
  cases result <;> simp [run, isRunning, hrunning]

theorem stop_of_isRunning (h : s.isRunning = true) (threads : List (ServerLabel M)) :
    s.stop threads = (s.server.stopServer threads).map fun server =>
      { s with
        server
        started := false
        afterStop := true
        stopCalls := s.stopCalls ++ [s.started] } := by
  have hrunning : s.running = true := h
  simp [stop, isRunning, hrunning]

theorem stop_of_not_isRunning (h : s.isRunning = false) (threads : List (ServerLabel M)) :
    s.stop threads = some { s with afterStop := true } := by
  have hrunning : s.running = false := h
  simp [stop, isRunning, hrunning]

/-- `running` is set by the first `run` that starts the server and never reset. -/
theorem running_step (hstep : s.step l = some t) :
    t.running = true ↔ s.running = true ∨ l = .run .started := by
  cases l with
  | run result =>
    obtain rfl : s.run result = t := Option.some.inj hstep
    cases hrunning : s.isRunning with
    | true =>
      rw [run_of_isRunning hrunning]
      exact (iff_of_true hrunning (.inl hrunning))
    | false =>
      have hnot : s.running ≠ true := by
        show s.isRunning ≠ true
        rw [hrunning]
        decide
      rw [run_of_not_isRunning hrunning]
      simp [hnot]
  | sendMessageToEveryone message =>
    simp only [step] at hstep
    split_ifs at hstep
    obtain ⟨server, -, rfl⟩ := Option.map_eq_some_iff.mp hstep
    simp
  | stop threads =>
    simp only [step] at hstep
    split_ifs at hstep
    cases hrunning : s.isRunning with
    | true =>
      rw [stop_of_isRunning hrunning] at hstep
      obtain ⟨server, -, rfl⟩ := Option.map_eq_some_iff.mp hstep
      simp
    | false =>
      rw [stop_of_not_isRunning hrunning] at hstep
      obtain rfl := Option.some.inj hstep
      simp
  | threads label =>
    simp only [step] at hstep
    split_ifs at hstep
    obtain ⟨server, -, rfl⟩ := Option.map_eq_some_iff.mp hstep
    simp

theorem running_of_run {calls : List (WrapperLabel M)} (h : Lts.run step calls s = some t) :
    t.running = true ↔ s.running = true ∨ .run .started ∈ calls := by
  induction calls generalizing s with
  | nil =>
    obtain rfl : s = t := by simpa using h
    simp
  | cons l calls ih =>
    obtain ⟨u, hu, hrest⟩ := Option.bind_eq_some_iff.mp h
    rw [ih hrest, running_step hu, List.mem_cons, or_assoc, eq_comm (a := l)]

/-! ## Without a stop -/

/-- The server has not been stopped so far; before it is started there is no broadcast. -/
structure Inv (s : ServerWrapper M) : Prop where
  consistent : s.Consistent
  afterStop : s.afterStop = true → s.started = false
  everyone : s.started = false → s.server.everyone = none

theorem inv_initial : (initial : ServerWrapper M).Inv :=
  ⟨⟨rfl, fun _ h => absurd h List.not_mem_nil, fun _ h => absurd h List.not_mem_nil⟩, nofun,
    fun _ => rfl⟩

/-- A step of a server that has been started. -/
theorem Inv.server (h : s.Inv) (hstarted : s.started = true) (server : Server M) :
    { s with server }.Inv := by
  refine ⟨⟨h.consistent.isRunning, h.consistent.stopServer, h.consistent.run⟩, h.afterStop,
    fun hnot => ?_⟩
  exact absurd (hstarted.symm.trans hnot) Bool.noConfusion

theorem everyone_runServer (s : Server M) (result : RunServer) :
    (s.runServer result).everyone = s.everyone := by
  cases result <;> rfl

theorem inv_run (h : s.Inv) (result : RunServer) : (s.run result).Inv := by
  have hsame := h.consistent.isRunning
  cases hrunning : s.isRunning with
  | true =>
    have hstarted : s.started = true := hsame.symm.trans hrunning
    rw [run_of_isRunning hrunning]
    refine ⟨⟨hsame, h.consistent.stopServer, fun call hcall hafter => ?_⟩, nofun, h.everyone⟩
    rcases List.mem_append.mp hcall with hold | hnew
    · exact h.consistent.run call hold hafter
    · -- the call before was no `stop`
      rw [List.mem_singleton.mp hnew] at hafter
      have hnot := h.afterStop hafter
      rw [hstarted] at hnot
      cases hnot
  | false =>
    have hstarted : s.started = false := hsame.symm.trans hrunning
    have heveryone := h.everyone hstarted
    rw [run_of_not_isRunning hrunning]
    refine ⟨⟨?_, h.consistent.stopServer, fun call hcall hafter => ?_⟩, nofun, fun _ => ?_⟩
    · show decide (result = .started) = (s.started || decide (result = .started))
      rw [hstarted, Bool.false_or]
    · rcases List.mem_append.mp hcall with hold | hnew
      · exact h.consistent.run call hold hafter
      · rw [List.mem_singleton.mp hnew, heveryone]
        exact ⟨rfl, rfl⟩
    · rw [everyone_runServer, heveryone]

theorem inv_step (h : s.Inv) (hok : s.NothingToStop l) (hstep : s.step l = some t) : t.Inv := by
  have hsame := h.consistent.isRunning
  cases l with
  | run result =>
    obtain rfl : s.run result = t := Option.some.inj hstep
    exact inv_run h result
  | sendMessageToEveryone message =>
    unfold step at hstep
    split_ifs at hstep with hrunning
    obtain ⟨server, -, rfl⟩ := Option.map_eq_some_iff.mp hstep
    exact h.server (hsame.symm.trans hrunning) server
  | stop threads =>
    have hrunning : s.isRunning = false := hok
    simp only [step, stop_of_not_isRunning hrunning] at hstep
    split_ifs at hstep
    obtain rfl := Option.some.inj hstep
    exact ⟨⟨hsame, h.consistent.stopServer, h.consistent.run⟩, fun _ => hsame.symm.trans hrunning,
      h.everyone⟩
  | threads label =>
    simp only [step] at hstep
    split_ifs at hstep with hcond
    obtain ⟨server, -, rfl⟩ := Option.map_eq_some_iff.mp hstep
    exact h.server hcond.1 server

/-! ## With a stop -/

/-- After `stop` has stopped the server the wrapper still says it is running. -/
theorem nothingToStop_of_consistent (hstep : s.step l = some t) (ht : t.Consistent) :
    s.NothingToStop l := by
  cases l with
  | stop threads =>
    show s.running = false
    cases hrunning : s.running with
    | false => rfl
    | true =>
      simp only [step, stop_of_isRunning hrunning] at hstep
      split_ifs at hstep
      obtain ⟨server, -, rfl⟩ := Option.map_eq_some_iff.mp hstep
      exact absurd (hrunning.symm.trans ht.isRunning) Bool.noConfusion
  | run | sendMessageToEveryone | threads => trivial

/-- **Starting and stopping.** In a run of calls, `isRunning` is right, `stopServer` is called on a
running server only and every `run` after a `stop` starts the server afresh, if and only if no
`stop` follows a `run` for which `runServer` returned 0. -/
theorem consistent_iff_never_stopped (calls : List (WrapperLabel M)) (t : ServerWrapper M)
    (h : Lts.run step calls initial = some t) :
    Lts.Always step Consistent calls initial ↔
      ∀ pre threads post, calls = pre ++ .stop threads :: post → .run .started ∉ pre := by
  have halong : Lts.Always step Consistent calls initial ↔
      Lts.Along step NothingToStop calls initial :=
    Lts.always_iff_along_of_invariant (fun _ => Inv.consistent)
      (fun _ _ _ hI hok hstep => inv_step hI hok hstep)
      (fun _ _ _ _ hstep ht => nothingToStop_of_consistent hstep ht) h inv_initial
  rw [halong, Lts.along_iff_forall]
  constructor
  · intro hok pre threads post hcalls hmem
    rw [hcalls, Lts.run_append] at h
    obtain ⟨u, hu, -⟩ := Option.bind_eq_some_iff.mp h
    have hnot : u.running = false := hok pre (.stop threads) post u hcalls hu
    rw [(running_of_run hu).mpr (.inr hmem)] at hnot
    cases hnot
  · intro hnone pre l post u hcalls hu
    cases l with
    | stop threads =>
      have hmem := hnone pre threads post hcalls
      show u.running = false
      rw [← Bool.not_eq_true, running_of_run hu]
      intro hrun
      exact hrun.elim Bool.noConfusion hmem
    | run | sendMessageToEveryone | threads => trivial

/-- A first `runServer` fails; then the server is started and sends. -/
def startedOnce : List (WrapperLabel Unit) :=
  [.stop [], .run .noSender, .stop [], .run .started, .threads (.sender true),
    .sendMessageToEveryone (), .run .started]

theorem consistent_iff_never_stopped_startedOnce :
    Lts.Always step Consistent startedOnce initial := by
  refine (consistent_iff_never_stopped startedOnce _ rfl).mpr fun pre threads post hcalls => ?_
  rcases pre with _ | ⟨a, _ | ⟨b, _ | ⟨c, pre⟩⟩⟩
  · exact List.not_mem_nil
  · simp [startedOnce] at hcalls
  · obtain ⟨rfl, rfl, -⟩ : .stop [] = a ∧ .run .noSender = b ∧ _ := by
      simpa [startedOnce] using hcalls
    simp
  · have hmem : .stop threads ∈ startedOnce.drop 3 := by
      rw [hcalls]
      simp
    simp [startedOnce] at hmem

/-- The server is stopped with a broadcast pending, stopped again and run again. -/
def stoppedTwice : List (WrapperLabel Unit) :=
  [.run .started, .sendMessageToEveryone (), .stop [.sender true, .sender true], .stop [],
    .run .started]

/-- `stopServer` is called on the stopped server, the wrapper says that it is running, and the last
`run` does not start it, with a broadcast that has been released still pending. -/
theorem never_runs_again :
    ∃ s : ServerWrapper Unit, Lts.run step stoppedTwice initial = some s ∧ ¬ s.Consistent ∧
      s.isRunning = true ∧ s.started = false ∧ s.stopCalls = [true, false] ∧
      s.runCalls = [⟨false, true, false⟩, ⟨true, false, true⟩] := by
  refine ⟨_, rfl, fun h => ?_, rfl, rfl, rfl, rfl⟩
  cases h.isRunning

end ServerWrapper

end PRShooter
