import PRShooter.SenderMoves
import Mathlib.Data.List.Nodup

/-!
# Whose connection a frame is written to

A record of the clients table names a descriptor number, and the sender uses a copy of it. A
receiver closes its socket before it marks its record as stopped, so for a while a RUNNING record
names a number the system may give away (`written_to_other`). As long as `accept` returns no number
that a RUNNING record or a RUNNING copy still names, every frame is written to the connection that
was accepted for its client (`ownConnection_of_reach`).
-/

namespace PRShooter

variable {M : Type}

/-- The job of the `sendMessageTo` the sender is in. -/
def Sender.current : Sender M → Option (Job M)
  | .sendSize job _ | .sendData job _ => some job
  | _ => none

theorem Sender.jobs_of_idle {a : Sender M} (h : a.idle = true) : a.jobs = [] := by
  cases a <;> first | rfl | cases h

theorem Sender.current_of_idle {a : Sender M} (h : a.idle = true) : a.current = none := by
  cases a <;> first | rfl | cases h

namespace Server

/-- Every frame for client `i` has been written to the connection accepted for `i`, which is the
connection of no other client. -/
def OwnConnection (s : Server M) : Prop :=
  ∀ i conn, .written i conn ∈ s.log →
    s.connOf[i]? = some conn ∧ ∀ j, s.connOf[j]? = some conn → j = i

/-- A RUNNING record names the number, in the table or among the copies of the sender. -/
def Named (s : Server M) (fd : ℕ) : Prop :=
  (∃ client ∈ s.clients, client.status = .running ∧ client.socket = fd) ∨
    ∃ job ∈ s.sender.jobs, job.client.status = .running ∧ job.client.socket = fd

instance (s : Server M) (fd : ℕ) : Decidable (s.Named fd) :=
  inferInstanceAs (Decidable (_ ∨ _))

/-- `accept` returns no number that a RUNNING record names. -/
def AcceptsFresh (s : Server M) : ServerLabel M → Prop
  | .accept fd => ¬ s.Named fd
  | _ => True

instance (s : Server M) : (l : ServerLabel M) → Decidable (s.AcceptsFresh l)
  | .accept fd => inferInstanceAs (Decidable (¬ s.Named fd))
  | .sendTo _ | .sendToEveryone _ | .addClient _ | .closeSocket _ | .stopClient _ | .setStop
  | .stopReceivingThreads | .sender _ => .isTrue trivial

/-! ## What a step does to descriptors -/

variable {s t : Server M}

/-- The records of `clients'` that run are records of `clients`. -/
def RunningFrom (clients clients' : List ClientRecord) : Prop :=
  ∀ (i : ℕ) (client : ClientRecord), clients'[i]? = some client → client.status = .running →
    clients[i]? = some client

theorem runningFrom_setStatus (s : Server M) (i : ℕ) {status : ThreadStatus}
    (h : status ≠ .running) : RunningFrom s.clients (s.setStatus i status).clients := by
  intro j client hj hrunning
  unfold setStatus at hj
  rw [List.getElem?_modify] at hj
  by_cases hij : i = j
  · obtain ⟨old, -, rfl⟩ := Option.map_eq_some_iff.mp hj
    simp [hij] at hrunning
    exact absurd hrunning h
  · simpa [hij] using hj

/-- The step leaves descriptors and connections alone and starts no client. -/
structure SameDescriptors (s t : Server M) : Prop where
  fds : t.fds = s.fds
  connOf : t.connOf = s.connOf
  listener : t.listener = s.listener
  nextConn : t.nextConn = s.nextConn
  length : t.clients.length = s.clients.length
  running : RunningFrom s.clients t.clients

theorem sameDescriptors_mailboxes (s : Server M)
    (outgoing : SynchronizedQueue (IndividualMessage M)) (everyone : Option (Broadcast M))
    (everyoneCalls : ℕ) (stopped : Bool) (sender : Sender M) (log : List (ServerEvent M)) :
    SameDescriptors s { s with outgoing, everyone, everyoneCalls, stopped, sender, log } :=
  ⟨rfl, rfl, rfl, rfl, rfl, fun _ _ h _ => h⟩

theorem sameDescriptors_setStatus (s : Server M) (i : ℕ) {status : ThreadStatus}
    (h : status ≠ .running) (receivers : List ReceiverThread) (sender : Sender M) :
    SameDescriptors s { s.setStatus i status with receivers, sender } :=
  ⟨rfl, rfl, rfl, rfl, List.length_modify _ _ _, runningFrom_setStatus s i h⟩

theorem sameDescriptors_send (s : Server M) (ok : Bool) (job : Job M) (sender : Sender M) :
    SameDescriptors s { s.send ok job with sender } := by
  unfold send
  split
  · split_ifs
    · exact sameDescriptors_mailboxes ..
    · exact sameDescriptors_setStatus s _ ThreadStatus.noConfusion _ _
  · exact sameDescriptors_setStatus s _ ThreadStatus.noConfusion _ _

theorem sameDescriptors_senderStep {ok : Bool} (h : s.senderStep ok = some t) :
    SameDescriptors s t := by
  cases hs : s.sender <;> simp only [senderStep, hs, reduceCtorEq, Option.some.injEq] at h
  case popIndividual =>
    obtain ⟨_, -, rfl⟩ := Option.map_eq_some_iff.mp h
    exact sameDescriptors_mailboxes ..
  case getClient msg =>
    obtain ⟨_, -, rfl⟩ := Option.map_eq_some_iff.mp h
    exact sameDescriptors_mailboxes ..
  case serve jobs =>
    cases jobs with
    | nil => exact Option.some.inj h ▸ sameDescriptors_mailboxes ..
    | cons job jobs =>
      simp only at h
      split_ifs at h <;> exact Option.some.inj h ▸ sameDescriptors_mailboxes ..
  case sendSize job jobs => exact h ▸ sameDescriptors_send ..
  case sendData job jobs => exact h ▸ sameDescriptors_send ..
  all_goals exact h ▸ sameDescriptors_mailboxes ..

/-- What a step does to descriptors: nothing, or one step of the listener or of a closing. -/
inductive Plumbing (s : Server M) : ServerLabel M → Server M → Prop
  | same {l : ServerLabel M} {t : Server M} (h : SameDescriptors s t) : Plumbing s l t
  | accept (fd : ℕ) (hlistener : s.listener = .accepting) (hclosed : s.fds fd = none) :
    Plumbing s (.accept fd) { s with
      fds := Function.update s.fds fd (some s.nextConn)
      listener := .accepted fd s.nextConn
      nextConn := s.nextConn + 1 }
  | addClient (fd conn : ℕ) (created : Bool) (hlistener : s.listener = .accepted fd conn) :
    Plumbing s (.addClient created) (s.addClient fd conn created)
  | closeSocket (i fd : ℕ) (receivers : List ReceiverThread) :
    Plumbing s (.closeSocket i) { s with fds := Function.update s.fds fd none, receivers }

theorem plumbing_of_step {l : ServerLabel M} (h : s.step l = some t) : s.Plumbing l t := by
  cases l with
  | sendTo msg | sendToEveryone message =>
    simp only [step] at h
    split_ifs at h
    exact .same (Option.some.inj h ▸ sameDescriptors_mailboxes ..)
  | accept fd =>
    simp only [step] at h
    split_ifs at h with hcond
    exact Option.some.inj h ▸ .accept fd hcond.1 hcond.2
  | addClient created =>
    simp only [step] at h
    split at h
    next fd conn hlistener => exact Option.some.inj h ▸ .addClient fd conn created hlistener
    next => cases h
  | closeSocket i =>
    simp only [step] at h
    split at h
    · exact Option.some.inj h ▸ .closeSocket i _ _
    · cases h
  | stopClient i =>
    simp only [step] at h
    split_ifs at h
    exact .same (Option.some.inj h ▸ sameDescriptors_setStatus s i ThreadStatus.noConfusion _ _)
  | setStop => exact .same (Option.some.inj h ▸ sameDescriptors_mailboxes ..)
  | stopReceivingThreads =>
    simp only [step] at h
    split at h
    · refine .same (Option.some.inj h ▸ ⟨rfl, rfl, rfl, rfl, List.length_map _, ?_⟩)
      intro i client hclient hrunning
      obtain ⟨old, -, rfl⟩ := List.mem_map.mp (List.mem_of_getElem? hclient)
      cases hrunning
    · cases h
  | sender ok => exact .same (sameDescriptors_senderStep h)

/-! ## What the sender does with its copies -/

/-- A copy the sender has after a step was there before or is a record of the table. -/
theorem jobs_move (hmove : s.Move t) :
    ∀ job ∈ t.sender.jobs, job ∈ s.sender.jobs ∨ s.clients[job.clientId]? = some job.client := by
  cases hmove with
  | table _ _ _ _ _ hsender =>
    intro job hjob
    exact .inl (hsender ▸ hjob)
  | sendTo msg | sendToEveryone message =>
    intro job hjob
    exact .inl hjob
  | control next _ hnext =>
    show ∀ job ∈ next.jobs, _
    rw [Sender.jobs_of_idle hnext]
    exact nofun
  | found hs =>
    intro job hjob
    by_cases hempty : queueSyncIsEmpty s.outgoing = true <;> simp [hempty, Sender.jobs] at hjob
  | getClient msg client hs hclient =>
    intro job hjob
    obtain rfl := List.mem_singleton.mp hjob
    exact .inr hclient
  | getAllClients b hs =>
    intro job hjob
    exact .inr (mem_broadcastJobs.mp hjob).1
  | attempt job jobs hs =>
    intro job' hjob'
    exact .inl (by rw [hs]; exact hjob')
  | skip job jobs hs =>
    intro job' hjob'
    exact .inl (by rw [hs]; exact List.mem_cons_of_mem _ hjob')
  | send job jobs hs =>
    intro job' hjob'
    generalize s.sender = a at hs ⊢
    generalize t.sender = b at hs hjob'
    cases hs with
    | size => exact .inl hjob'
    | data => exact .inl (List.mem_cons_of_mem _ hjob')
  | lockQueue hs | popIndividual msg rest hs | popEveryone hs | drain hs => exact nofun

/-- `sendMessageTo` calls `send` only for a copy that runs. -/
theorem current_move (h : ∀ job, s.sender.current = some job → job.client.status = .running)
    (hmove : s.Move t) : ∀ job, t.sender.current = some job → job.client.status = .running := by
  cases hmove with
  | table _ _ _ _ _ hsender => rwa [hsender]
  | sendTo msg | sendToEveryone message => exact h
  | control next _ hnext =>
    show ∀ job, next.current = some job → _
    rw [Sender.current_of_idle hnext]
    exact nofun
  | found hs =>
    intro job hjob
    by_cases hempty : queueSyncIsEmpty s.outgoing = true <;> simp [hempty, Sender.current] at hjob
  | attempt job jobs hs hrunning =>
    intro job' hjob'
    exact Option.some.inj hjob' ▸ hrunning
  | send job jobs hs =>
    intro job' hjob'
    refine h job' ?_
    generalize s.sender = a at hs ⊢
    generalize t.sender = b at hs hjob'
    cases hs with
    | size => exact hjob'
    | data => cases hjob'
  | lockQueue hs | popIndividual msg rest hs | getClient msg client hs hclient | popEveryone hs
  | getAllClients b hs | skip job jobs hs | drain hs => exact nofun

/-- A step writes to the descriptor that the current copy names. -/
theorem written_move (hmove : s.Move t) {i conn : ℕ} (h : .written i conn ∈ t.log) :
    .written i conn ∈ s.log ∨ ∃ job ∈ s.sender.jobs, s.sender.current = some job ∧
      job.clientId = i ∧ s.fds job.client.socket = some conn := by
  cases hmove with
  | table _ _ _ _ hlog => exact .inl (hlog ▸ h)
  | sendTo msg | sendToEveryone message | found hs | popIndividual msg rest hs | popEveryone hs
  | attempt job jobs hs => exact .inl (by simpa using h)
  | send job jobs hs _ _ _ _ hlog =>
    rcases hlog with hlog | ⟨conn', hconn, hlog⟩
    · exact .inl (hlog ▸ h)
    · rw [hlog, List.mem_append, List.mem_singleton] at h
      rcases h with h | h
      · exact .inl h
      · obtain ⟨rfl, rfl⟩ := ServerEvent.written.inj h
        refine .inr ⟨job, ?_, ?_, rfl, hconn⟩ <;> generalize s.sender = a at hs ⊢ <;>
          generalize t.sender = b at hs <;> cases hs <;> simp [Sender.jobs, Sender.current]
  | control next | lockQueue hs | getClient msg client hs | getAllClients b hs | skip job jobs hs
  | drain hs => exact .inl h

/-! ## Every run -/

/-- The number `fd`, if it is open, is the connection accepted for client `i`. -/
def Names (s : Server M) (i fd : ℕ) : Prop :=
  ∀ conn, s.fds fd = some conn → s.connOf[i]? = some conn

/-- Where the connections of a run are. -/
structure DescriptorInv (s : Server M) : Prop where
  length : s.clients.length = s.connOf.length
  nodup : s.connOf.Nodup
  accepted : ∀ conn ∈ s.connOf, conn < s.nextConn
  listener : ∀ fd conn, s.listener = .accepted fd conn →
    conn < s.nextConn ∧ conn ∉ s.connOf ∧ ∀ conn', s.fds fd = some conn' → conn' = conn
  table : ∀ (i : ℕ) (client : ClientRecord), s.clients[i]? = some client →
    client.status = .running → s.Names i client.socket
  copies : ∀ job ∈ s.sender.jobs, job.client.status = .running →
    s.Names job.clientId job.client.socket
  current : ∀ job, s.sender.current = some job → job.client.status = .running
  written : ∀ i conn, .written i conn ∈ s.log → s.connOf[i]? = some conn

theorem descriptorInv_initial : (initial : Server M).DescriptorInv where
  length := rfl
  nodup := List.nodup_nil
  accepted := nofun
  listener := nofun
  table := nofun
  copies := nofun
  current := nofun
  written := nofun

variable {l : ServerLabel M}

theorem connOf_plumbing (h : s.Plumbing l t) {i conn : ℕ} (hi : s.connOf[i]? = some conn) :
    t.connOf[i]? = some conn := by
  cases h with
  | same h => rwa [h.connOf]
  | accept fd | closeSocket j fd receivers => exact hi
  | addClient fd conn' created =>
    exact (List.getElem?_append_left (List.getElem?_eq_some_iff.mp hi).1).trans hi

theorem fds_addClient {fd conn : ℕ} {created : Bool} {fd' conn' : ℕ}
    (h : (s.addClient fd conn created).fds fd' = some conn') : s.fds fd' = some conn' := by
  cases created with
  | true => exact h
  | false =>
    by_cases hfd : fd' = fd
    · subst hfd
      simp [addClient] at h
    · simpa [addClient, hfd] using h

theorem fds_close {fd fd' conn : ℕ} (h : Function.update s.fds fd none fd' = some conn) :
    s.fds fd' = some conn := by
  by_cases hfd : fd' = fd
  · subst hfd
    simp at h
  · simpa [hfd] using h

/-- A number a RUNNING record names stays with its client, unless `accept` gives it away. -/
theorem names_plumbing {i fd : ℕ} (hok : s.AcceptsFresh l) (h : s.Plumbing l t)
    (hnames : s.Names i fd) (hnamed : s.Named fd) : t.Names i fd := by
  intro conn hconn
  refine connOf_plumbing h (hnames conn ?_)
  cases h with
  | same h => rwa [h.fds] at hconn
  | accept fd' =>
    have hne : fd ≠ fd' := fun heq => hok (heq ▸ hnamed)
    simpa [hne] using hconn
  | addClient fd' conn' created => exact fds_addClient hconn
  | closeSocket j fd' receivers => exact fds_close hconn

theorem listener_plumbing (h : s.DescriptorInv) (hplumb : s.Plumbing l t) (fd conn : ℕ)
    (hfd : t.listener = .accepted fd conn) :
    conn < t.nextConn ∧ conn ∉ t.connOf ∧ ∀ conn', t.fds fd = some conn' → conn' = conn := by
  cases hplumb with
  | same hsame =>
    rw [hsame.nextConn, hsame.connOf, hsame.fds]
    exact h.listener fd conn (hsame.listener ▸ hfd)
  | accept fd' =>
    obtain ⟨rfl, rfl⟩ := Listener.accepted.inj hfd
    refine ⟨Nat.lt_succ_self _, fun hmem => ?_, fun conn' hconn' => ?_⟩
    · exact absurd (h.accepted _ hmem) (Nat.lt_irrefl _)
    · simpa using hconn'.symm
  | addClient fd' conn' created => cases hfd
  | closeSocket i fd' receivers =>
    obtain ⟨hlt, hnot, hconn⟩ := h.listener fd conn hfd
    exact ⟨hlt, hnot, fun conn' hconn' => hconn conn' (fds_close hconn')⟩

/-- A record that runs ran before, or is the new one. -/
theorem table_plumbing (h : s.DescriptorInv) (hok : s.AcceptsFresh l) (hplumb : s.Plumbing l t)
    (i : ℕ) (client : ClientRecord) (hclient : t.clients[i]? = some client)
    (hrunning : client.status = .running) : t.Names i client.socket := by
  have hold : s.clients[i]? = some client → t.Names i client.socket := fun hi =>
    names_plumbing hok hplumb (h.table i client hi hrunning)
      (.inl ⟨client, List.mem_of_getElem? hi, hrunning, rfl⟩)
  cases hplumb with
  | same hsame => exact hold (hsame.running i client hclient hrunning)
  | accept fd | closeSocket j fd receivers => exact hold hclient
  | addClient fd conn created hlistener =>
    rcases Nat.lt_or_ge i s.clients.length with hi | hi
    · exact hold ((List.getElem?_append_left hi).symm.trans hclient)
    · have hnew : i = s.clients.length ∧ client = ⟨fd, .running⟩ := by
        have hlt := (List.getElem?_eq_some_iff.mp hclient).1
        simp only [addClient, List.length_append, List.length_singleton] at hlt
        obtain rfl : i = s.clients.length := by omega
        simpa [addClient, eq_comm] using hclient
      obtain ⟨rfl, rfl⟩ := hnew
      intro conn' hconn'
      obtain rfl := (h.listener fd conn hlistener).2.2 conn' (fds_addClient hconn')
      simp [addClient, h.length]

theorem descriptorInv_step (h : s.DescriptorInv) (hok : s.AcceptsFresh l)
    (hstep : s.step l = some t) : t.DescriptorInv := by
  have hmove := move_of_step hstep
  have hplumb := plumbing_of_step hstep
  refine ⟨?_, ?_, ?_, listener_plumbing h hplumb, table_plumbing h hok hplumb, ?_,
    current_move h.current hmove, ?_⟩
  · cases hplumb with
    | same hsame => rw [hsame.length, hsame.connOf, h.length]
    | accept fd | closeSocket i fd receivers => exact h.length
    | addClient fd conn created => simp [addClient, h.length]
  · cases hplumb with
    | same hsame => exact hsame.connOf ▸ h.nodup
    | accept fd | closeSocket i fd receivers => exact h.nodup
    | addClient fd conn created hlistener =>
      exact List.nodup_append.mpr ⟨h.nodup, List.nodup_singleton _, fun a ha b hb hab =>
        (h.listener fd conn hlistener).2.1 (List.mem_singleton.mp hb ▸ hab ▸ ha)⟩
  · cases hplumb with
    | same hsame =>
      rw [hsame.connOf, hsame.nextConn]
      exact h.accepted
    | accept fd =>
      intro conn hconn
      exact Nat.lt_succ_of_lt (h.accepted conn hconn)
    | closeSocket i fd receivers => exact h.accepted
    | addClient fd conn created hlistener =>
      intro conn' hconn'
      rcases List.mem_append.mp hconn' with hold | hnew
      · exact h.accepted conn' hold
      · exact List.mem_singleton.mp hnew ▸ (h.listener fd conn hlistener).1
  · intro job hjob hrunning
    rcases jobs_move hmove job hjob with hold | hcopied
    · exact names_plumbing hok hplumb (h.copies job hold hrunning)
        (.inr ⟨job, hold, hrunning, rfl⟩)
    · exact names_plumbing hok hplumb (h.table _ _ hcopied hrunning)
        (.inl ⟨job.client, List.mem_of_getElem? hcopied, hrunning, rfl⟩)
  · intro i conn hwritten
    refine connOf_plumbing hplumb ?_
    rcases written_move hmove hwritten with hold | ⟨job, hjob, hcurrent, rfl, hconn⟩
    · exact h.written i conn hold
    · exact h.copies job hjob (h.current job hcurrent) conn hconn

/-- When `accept` returns a number, it is the connection of no client that is known. -/
theorem not_names_of_accept (h : s.DescriptorInv) {fd : ℕ} (hstep : s.step (.accept fd) = some t)
    (i : ℕ) : ¬ t.Names i fd := by
  intro hnames
  simp only [step] at hstep
  split_ifs at hstep
  obtain rfl := Option.some.inj hstep
  have hconn := hnames s.nextConn (by simp)
  exact absurd (h.accepted _ (List.mem_of_getElem? hconn)) (Nat.lt_irrefl _)

theorem DescriptorInv.ownConnection (h : s.DescriptorInv) : s.OwnConnection := by
  intro i conn hwritten
  have hi := h.written i conn hwritten
  refine ⟨hi, fun j hj => ?_⟩
  exact (List.getElem?_inj (List.getElem?_eq_some_iff.mp hj).1 h.nodup).mp (hj.trans hi.symm)

end Server

/-- **Own connection.** In every run in which `accept` returns no number that a RUNNING record still
names, every frame is written to the connection accepted for its client. -/
theorem ownConnection_of_reach {s : Server M}
    (h : Lts.Reach Server.step Server.AcceptsFresh Server.initial s) : s.OwnConnection := by
  refine Server.DescriptorInv.ownConnection (h.invariant Server.descriptorInv_initial ?_)
  intro _ _ _ hinv hok hstep
  exact Server.descriptorInv_step hinv hok hstep

/-- Client 0 connects on descriptor 5, and a broadcast takes the sender to its first `send`. -/
def broadcastRun : List (ServerLabel Unit) :=
  [.accept 5, .addClient true, .sendToEveryone ()] ++ List.replicate 9 (.sender true)

/-- The receiver of client 0 closes descriptor 5 and marks the record when the frame is written, and
only then the system gives the number to the next client. -/
def orderlyRun : List (ServerLabel Unit) :=
  broadcastRun ++ [.sender true, .sender true, .closeSocket 0, .stopClient 0, .accept 5]

theorem ownConnection_of_reach_orderly :
    ∃ s, Lts.run Server.step orderlyRun Server.initial = some s ∧
      s.connOf = [0] ∧ s.listener = .accepted 5 1 ∧ s.OwnConnection := by
  refine ⟨_, rfl, rfl, rfl, ?_⟩
  have hrun := (rfl : Lts.run Server.step orderlyRun Server.initial = some _)
  have halong : Lts.Along Server.step Server.AcceptsFresh orderlyRun Server.initial := by decide
  exact ownConnection_of_reach (.of_along hrun halong)

/-! ## A number given away too early -/

/-- The receiver of client 0 closes descriptor 5 while the sender has a copy of its record, and the
system gives the number to the next client. -/
def reuseRun : List (ServerLabel Unit) :=
  broadcastRun ++ [.closeSocket 0, .accept 5, .addClient true, .sender true]

/-- The frame for client 0 is written to the connection of client 1. -/
theorem written_to_other :
    ¬ ∀ s : Server Unit, Lts.Reach Server.step Lts.Any Server.initial s → s.OwnConnection := by
  intro h
  have hrun : ∃ s, Lts.run Server.step reuseRun Server.initial = some s ∧
      s.log = [.sendToEveryone (), .found true, .popEveryone (some ⟨(), 0⟩),
        .attempt 0 (.everyone (some ⟨(), 0⟩)), .written 0 1] ∧ s.connOf = [0, 1] :=
    ⟨_, rfl, rfl, rfl⟩
  obtain ⟨s, hs, hlog, hconnOf⟩ := hrun
  have hconn := (h s (.of_run hs) 0 1 (by simp [hlog])).1
  rw [hconnOf] at hconn
  cases hconn

end PRShooter
