import PRShooter.SenderMoves
import PRShooter.ExactReal
import Mathlib.Data.List.Infix
import Mathlib.Data.List.Nodup

/-!
# What the sender sends, and in which order

The sender merges the queue of individual messages and the slot of the latest broadcast. For every
client the individual messages it attempts to write are a prefix of the calls of `sendTo`, and the
broadcasts a subsequence of the calls of `sendToEveryone`, each the latest one when it was popped
(`senderOrder_of_reach`). Between two tests the sender drops its locks; what it has found stays true
because it alone pops the queue, and holds `message_mutex` from the test of the slot to its pop.
-/

namespace PRShooter

variable {M : Type}

/-! ## Reading the log -/

namespace ServerEvent

/-- What the event adds to the calls of `sendTo`. -/
def sendToCall : ServerEvent M → List (IndividualMessage M)
  | .sendTo msg => [msg]
  | _ => []

/-- What the event adds to the individual messages the sender has popped. -/
def poppedIndividual : ServerEvent M → List (IndividualMessage M)
  | .popIndividual msg => [msg]
  | _ => []

/-- What the event adds to the individual messages the sender has attempted to write. -/
def individualAttempt : ServerEvent M → List (IndividualMessage M)
  | .attempt i (.individual m) => [⟨m, i⟩]
  | _ => []

/-- What the event adds to the messages of the calls of `sendToEveryone`. -/
def everyoneMessage : ServerEvent M → List M
  | .sendToEveryone m => [m]
  | _ => []

/-- What the event adds to the broadcasts the sender has popped; `none` is a `NULL` message. -/
def poppedBroadcast : ServerEvent M → List (Option (Broadcast M))
  | .popEveryone b => [b]
  | _ => []

/-- What the event adds to the broadcasts the sender has attempted to write to client `i`. -/
def broadcastAttempt (i : ℕ) : ServerEvent M → List (Option (Broadcast M))
  | .attempt j (.everyone b) => if j = i then [b] else []
  | _ => []

/-- The event is a step of the sender on its two mailboxes. -/
def isMailbox : ServerEvent M → Bool
  | .found _ | .popIndividual _ | .popEveryone _ => true
  | _ => false

end ServerEvent

def sendToCalls (log : List (ServerEvent M)) : List (IndividualMessage M) :=
  log.flatMap ServerEvent.sendToCall
def poppedIndividuals (log : List (ServerEvent M)) : List (IndividualMessage M) :=
  log.flatMap ServerEvent.poppedIndividual
def individualAttempts (log : List (ServerEvent M)) : List (IndividualMessage M) :=
  log.flatMap ServerEvent.individualAttempt
def everyoneMessages (log : List (ServerEvent M)) : List M :=
  log.flatMap ServerEvent.everyoneMessage
def poppedBroadcasts (log : List (ServerEvent M)) : List (Option (Broadcast M)) :=
  log.flatMap ServerEvent.poppedBroadcast
def broadcastAttempts (i : ℕ) (log : List (ServerEvent M)) : List (Option (Broadcast M)) :=
  log.flatMap (ServerEvent.broadcastAttempt i)

/-- The calls of `sendToEveryone`, numbered. -/
def sendToEveryoneCalls (log : List (ServerEvent M)) : List (Broadcast M) :=
  (everyoneMessages log).zipIdx.map fun (m, n) => ⟨m, n⟩

/-- The messages of a list that are for a client. -/
def messagesTo (i : ℕ) (msgs : List (IndividualMessage M)) : List M :=
  (msgs.filter fun msg => msg.clientId = i).map IndividualMessage.message

/-- The last thing the sender did with its mailboxes. -/
def lastMailbox (log : List (ServerEvent M)) : Option (ServerEvent M) :=
  (log.filter ServerEvent.isMailbox).getLast?

/-- A broadcast is popped right after the queue was found empty, and is the latest call; the queue
is found empty exactly when every call of `sendTo` has been popped. -/
def MailboxLegal (log : List (ServerEvent M)) : ServerEvent M → Prop
  | .popEveryone b =>
    lastMailbox log = some (.found true) ∧ b.isSome ∧ b = (sendToEveryoneCalls log).getLast?
  | .found empty => empty = true ↔ poppedIndividuals log = sendToCalls log
  | _ => True

/-- The order of what is sent. -/
structure SenderOrder (log : List (ServerEvent M)) : Prop where
  /-- Individual messages: a prefix of the calls. -/
  individual : ∀ i, messagesTo i (individualAttempts log) <+: messagesTo i (sendToCalls log)
  /-- Broadcasts: a subsequence of the numbered calls, none of them `NULL`. -/
  broadcast : ∀ i, (broadcastAttempts i log).Sublist ((sendToEveryoneCalls log).map some)
  /-- A broadcast is attempted after it has been popped, once for each client. -/
  popped : ∀ i, (broadcastAttempts i log).Sublist (poppedBroadcasts log)
  mailboxes : History.EachEvent MailboxLegal log

section Log

variable (log : List (ServerEvent M)) (e : ServerEvent M)

@[simp] theorem sendToCalls_append :
    sendToCalls (log ++ [e]) = sendToCalls log ++ e.sendToCall := by
  simp [sendToCalls]

@[simp] theorem poppedIndividuals_append :
    poppedIndividuals (log ++ [e]) = poppedIndividuals log ++ e.poppedIndividual := by
  simp [poppedIndividuals]

@[simp] theorem individualAttempts_append :
    individualAttempts (log ++ [e]) = individualAttempts log ++ e.individualAttempt := by
  simp [individualAttempts]

@[simp] theorem everyoneMessages_append :
    everyoneMessages (log ++ [e]) = everyoneMessages log ++ e.everyoneMessage := by
  simp [everyoneMessages]

@[simp] theorem poppedBroadcasts_append :
    poppedBroadcasts (log ++ [e]) = poppedBroadcasts log ++ e.poppedBroadcast := by
  simp [poppedBroadcasts]

@[simp] theorem broadcastAttempts_append (i : ℕ) :
    broadcastAttempts i (log ++ [e]) = broadcastAttempts i log ++ e.broadcastAttempt i := by
  simp [broadcastAttempts]

/-- The next call of `sendToEveryone` has the next number. -/
theorem sendToEveryoneCalls_sendToEveryone (m : M) :
    sendToEveryoneCalls (log ++ [.sendToEveryone m])
      = sendToEveryoneCalls log ++ [⟨m, (sendToEveryoneCalls log).length⟩] := by
  simp [sendToEveryoneCalls, ServerEvent.everyoneMessage, List.zipIdx_append]

theorem sendToEveryoneCalls_append (h : e.everyoneMessage = []) :
    sendToEveryoneCalls (log ++ [e]) = sendToEveryoneCalls log := by
  simp [sendToEveryoneCalls, h]

theorem lastMailbox_append (h : e.isMailbox = true) : lastMailbox (log ++ [e]) = some e := by
  simp [lastMailbox, h]

theorem lastMailbox_append_of_not (h : e.isMailbox = false) :
    lastMailbox (log ++ [e]) = lastMailbox log := by
  simp [lastMailbox, h]

variable {log} {log' : List (ServerEvent M)}

theorem sendToCalls_mono (h : log <+: log') : sendToCalls log <+: sendToCalls log' :=
  h.flatMap _

theorem poppedIndividuals_mono (h : log <+: log') :
    poppedIndividuals log <+: poppedIndividuals log' :=
  h.flatMap _

end Log

/-- The log only grows. -/
theorem Server.Move.log_mono {s t : Server M} (h : s.Move t) : s.log <+: t.log := by
  cases h with
  | table _ _ _ _ hlog => rw [hlog]
  | send _ _ _ _ _ _ _ hlog =>
    rcases hlog with hlog | ⟨conn, -, hlog⟩ <;> rw [hlog]
    exact List.prefix_append _ _
  | _ => simp

@[simp] theorem messagesTo_append (i : ℕ) (msgs msgs' : List (IndividualMessage M)) :
    messagesTo i (msgs ++ msgs') = messagesTo i msgs ++ messagesTo i msgs' := by
  simp [messagesTo]

@[simp] theorem messagesTo_nil (i : ℕ) : messagesTo i ([] : List (IndividualMessage M)) = [] := rfl

theorem messagesTo_mono {i : ℕ} {msgs msgs' : List (IndividualMessage M)} (h : msgs <+: msgs') :
    messagesTo i msgs <+: messagesTo i msgs' := by
  obtain ⟨rest, rfl⟩ := h
  rw [messagesTo_append]
  exact List.prefix_append _ _

theorem messagesTo_cons (i : ℕ) (msg : IndividualMessage M) (msgs : List (IndividualMessage M)) :
    messagesTo i (msg :: msgs) =
      if msg.clientId = i then msg.message :: messagesTo i msgs else messagesTo i msgs := by
  by_cases h : msg.clientId = i <;> simp [messagesTo, h]

/-! ## What the sender has in its hands -/

/-- The individual message of a job. -/
def Job.individualMessage (job : Job M) : List (IndividualMessage M) :=
  match job.payload with
  | .individual m => [⟨m, job.clientId⟩]
  | .everyone _ => []

/-- The broadcast of a job, if it is one to client `i`. -/
def Job.broadcastTo (i : ℕ) (job : Job M) : List (Option (Broadcast M)) :=
  match job.payload with
  | .individual _ => []
  | .everyone b => if job.clientId = i then [b] else []

/-- The individual messages the sender has popped and not yet attempted. -/
def Sender.pending : Sender M → List (IndividualMessage M)
  | .getClient msg => [msg]
  | a => a.remaining.flatMap Job.individualMessage

/-- The broadcasts the sender has popped and not yet attempted to client `i`. -/
def Sender.unserved (i : ℕ) : Sender M → List (Option (Broadcast M))
  | .getAllClients b => [b]
  | a => a.remaining.flatMap (Job.broadcastTo i)

theorem Sender.remaining_of_idle {a : Sender M} (h : a.idle = true) : a.remaining = [] := by
  cases a <;> first | rfl | cases h

theorem Sender.pending_of_idle {a : Sender M} (h : a.idle = true) : a.pending = [] := by
  cases a <;> first | rfl | cases h

theorem Sender.unserved_of_idle {a : Sender M} (h : a.idle = true) (i : ℕ) : a.unserved i = [] := by
  cases a <;> first | rfl | cases h

section Sends

variable {job : Job M} {jobs : List (Job M)} {a b : Sender M} (h : Sender.Sends job jobs a b)

include h

theorem Sender.Sends.remaining : a.remaining = jobs ∧ b.remaining = jobs := by
  cases h <;> exact ⟨rfl, rfl⟩

theorem Sender.Sends.pending : b.pending = a.pending := by
  cases h <;> rfl

theorem Sender.Sends.unserved (i : ℕ) : b.unserved i = a.unserved i := by
  cases h <;> rfl

end Sends

namespace Server

variable {s t : Server M}

/-! ## The queue -/

/-- What is not in the queue any more has been popped, until the sender has emptied the queue. -/
structure QueueOk (s : Server M) : Prop where
  popped : poppedIndividuals s.log <+: sendToCalls s.log
  calls : s.sender ≠ .done → sendToCalls s.log = poppedIndividuals s.log ++ s.outgoing

theorem QueueOk.congr (h : s.QueueOk) (hpopped : poppedIndividuals t.log = poppedIndividuals s.log)
    (hcalls : sendToCalls t.log = sendToCalls s.log) (houtgoing : t.outgoing = s.outgoing)
    (hsender : s.sender ≠ .done) : t.QueueOk := by
  refine ⟨?_, fun _ => ?_⟩
  · rw [hpopped, hcalls]
    exact h.popped
  · rw [hpopped, hcalls, houtgoing]
    exact h.calls hsender

theorem queueOk_move (h : s.QueueOk) (hmove : s.Move t) : t.QueueOk := by
  cases hmove with
  | sendTo msg =>
    refine ⟨?_, fun hsender => ?_⟩
    · simpa [ServerEvent.sendToCall, ServerEvent.poppedIndividual] using
        h.popped.trans (List.prefix_append _ _)
    · simp [ServerEvent.sendToCall, ServerEvent.poppedIndividual, h.calls hsender,
        queueSyncPushBack]
  | sendToEveryone message =>
    refine ⟨?_, fun hsender => ?_⟩
    · simpa [ServerEvent.sendToCall, ServerEvent.poppedIndividual] using h.popped
    · simpa [ServerEvent.sendToCall, ServerEvent.poppedIndividual] using h.calls hsender
  | table _ houtgoing _ _ hlog hsender =>
    refine ⟨by rw [hlog]; exact h.popped, fun hdone => ?_⟩
    rw [hlog, houtgoing]
    exact h.calls (hsender ▸ hdone)
  | control next hs =>
    refine h.congr rfl rfl rfl fun hdone => ?_
    rcases hs with hs | hs <;> rw [hdone] at hs <;> cases hs
  | lockQueue hs => exact h.congr rfl rfl rfl (by rw [hs]; exact nofun)
  | found hs =>
    refine h.congr ?_ ?_ rfl (by rw [hs]; exact nofun) <;>
      simp [ServerEvent.sendToCall, ServerEvent.poppedIndividual]
  | popIndividual msg rest hs hqueue =>
    have hcalls := h.calls (by rw [hs]; exact nofun)
    rw [hqueue] at hcalls
    have hsplit : sendToCalls (s.log ++ [.popIndividual msg])
        = poppedIndividuals (s.log ++ [.popIndividual msg]) ++ rest := by
      simp [ServerEvent.sendToCall, ServerEvent.poppedIndividual, hcalls]
    exact ⟨by rw [hsplit]; exact List.prefix_append _ _, fun _ => hsplit⟩
  | getClient msg client hs => exact h.congr rfl rfl rfl (by rw [hs]; exact nofun)
  | popEveryone hs =>
    refine h.congr ?_ ?_ rfl (by rw [hs]; exact nofun) <;>
      simp [ServerEvent.sendToCall, ServerEvent.poppedIndividual]
  | getAllClients b hs => exact h.congr rfl rfl rfl (by rw [hs]; exact nofun)
  | attempt job jobs hs =>
    refine h.congr ?_ ?_ rfl (by rw [hs]; exact nofun) <;>
      simp [ServerEvent.sendToCall, ServerEvent.poppedIndividual]
  | skip job jobs hs => exact h.congr rfl rfl rfl (by rw [hs]; exact nofun)
  | send job jobs hs _ houtgoing _ _ hlog =>
    have hsender : s.sender ≠ .done := by
      intro hdone
      rw [hdone] at hs
      cases hs
    refine h.congr ?_ ?_ houtgoing hsender <;> rcases hlog with hlog | ⟨conn, -, hlog⟩ <;>
      simp [hlog, ServerEvent.sendToCall, ServerEvent.poppedIndividual]
  | drain hs =>
    exact ⟨h.popped, fun hdone => absurd rfl hdone⟩

/-! ## What the sender has found -/

/-- What the sender has found about its mailboxes is still true. -/
def FoundOk (s : Server M) : Prop :=
  match s.sender with
  | .lockQueue | .checkQueue => s.outgoing ≠ [] ∨ s.everyone.isSome
  | .popIndividual => s.outgoing ≠ []
  | .popEveryone => s.everyone.isSome ∧ lastMailbox s.log = some (.found true)
  | _ => True

theorem foundOk_of_idle (h : s.sender.idle = true)
    (hready : s.sender = .lockQueue → s.outgoing ≠ [] ∨ s.everyone.isSome) : s.FoundOk := by
  unfold FoundOk
  cases hs : s.sender with
  | lockQueue => exact hready hs
  | checkQueue | popIndividual | popEveryone => rw [hs] at h; cases h
  | _ => trivial

theorem foundOk_move (h : s.FoundOk) (hmove : s.Move t) : t.FoundOk := by
  cases hmove with
  | sendTo msg hfree =>
    unfold FoundOk at h ⊢
    cases hs : s.sender with
    | lockQueue => exact .inl (by simp [queueSyncPushBack])
    | checkQueue | popIndividual => rw [hs] at hfree; cases hfree
    | popEveryone =>
      rw [hs] at h
      exact ⟨h.1, (lastMailbox_append_of_not _ _ rfl).trans h.2⟩
    | _ => trivial
  | sendToEveryone message hfree =>
    unfold FoundOk at h ⊢
    cases hs : s.sender with
    | lockQueue | checkQueue | popEveryone => rw [hs] at hfree; cases hfree
    | popIndividual =>
      rw [hs] at h
      exact h
    | _ => trivial
  | table _ houtgoing heveryone _ hlog hsender =>
    unfold FoundOk at h ⊢
    rwa [hsender, houtgoing, heveryone, hlog]
  | control next _ hnext hready => exact foundOk_of_idle hnext hready
  | lockQueue hs =>
    unfold FoundOk at h
    rw [hs] at h
    exact h
  | found hs =>
    unfold FoundOk at h
    rw [hs] at h
    unfold FoundOk
    by_cases hempty : queueSyncIsEmpty s.outgoing = true
    · simp only [hempty, if_true]
      have hnil : s.outgoing = [] := by simpa [queueSyncIsEmpty] using hempty
      exact ⟨h.resolve_left (not_not_intro hnil), lastMailbox_append _ _ rfl⟩
    · simp only [hempty]
      simpa [queueSyncIsEmpty] using hempty
  | send job jobs hs =>
    unfold FoundOk
    generalize s.sender = a at hs
    generalize t.sender = b at hs ⊢
    cases hs <;> trivial
  | _ => trivial

/-! ## The slot of the broadcast -/

/-- The slot holds the latest call if it holds one. -/
structure SlotOk (s : Server M) : Prop where
  count : s.everyoneCalls = (sendToEveryoneCalls s.log).length
  empty : s.everyone = none →
    (poppedBroadcasts s.log).Sublist ((sendToEveryoneCalls s.log).map some)
  full : ∀ b, s.everyone = some b → ∃ calls, sendToEveryoneCalls s.log = calls ++ [b] ∧
    (poppedBroadcasts s.log).Sublist (calls.map some)

theorem SlotOk.congr (h : s.SlotOk) (hcount : t.everyoneCalls = s.everyoneCalls)
    (heveryone : t.everyone = s.everyone)
    (hcalls : sendToEveryoneCalls t.log = sendToEveryoneCalls s.log)
    (hpopped : poppedBroadcasts t.log = poppedBroadcasts s.log) : t.SlotOk := by
  refine ⟨?_, ?_, ?_⟩
  · rw [hcount, hcalls, h.count]
  · rw [heveryone, hcalls, hpopped]
    exact h.empty
  · rw [heveryone, hcalls, hpopped]
    exact h.full

/-- The popped broadcasts are a subsequence of the calls, whether or not one is in the slot. -/
theorem SlotOk.popped (h : s.SlotOk) :
    (poppedBroadcasts s.log).Sublist ((sendToEveryoneCalls s.log).map some) := by
  cases hslot : s.everyone with
  | none => exact h.empty hslot
  | some b =>
    obtain ⟨calls, hcalls, hpopped⟩ := h.full b hslot
    rw [hcalls, List.map_append]
    exact hpopped.trans (List.sublist_append_left _ _)

theorem slotOk_move (h : s.SlotOk) (hfound : s.FoundOk) (hmove : s.Move t) : t.SlotOk := by
  cases hmove with
  | sendTo msg =>
    exact h.congr rfl rfl (sendToEveryoneCalls_append _ _ rfl)
      (by simp [ServerEvent.poppedBroadcast])
  | sendToEveryone message =>
    have hcalls := sendToEveryoneCalls_sendToEveryone s.log message
    refine ⟨?_, nofun, fun b hb => ⟨sendToEveryoneCalls s.log, ?_, ?_⟩⟩
    · rw [hcalls, List.length_append, ← h.count]
      rfl
    · obtain rfl := Option.some.inj hb
      rw [hcalls, h.count]
    · simpa [ServerEvent.poppedBroadcast] using h.popped
  | table _ _ heveryone hcalls hlog => exact h.congr hcalls heveryone (by rw [hlog]) (by rw [hlog])
  | popEveryone hs =>
    have hcalls : sendToEveryoneCalls (s.log ++ [.popEveryone s.everyone])
        = sendToEveryoneCalls s.log := sendToEveryoneCalls_append _ _ rfl
    refine ⟨by rw [hcalls]; exact h.count, fun _ => ?_, nofun⟩
    rw [hcalls, poppedBroadcasts_append]
    cases hslot : s.everyone with
    | none =>
      unfold FoundOk at hfound
      rw [hs, hslot] at hfound
      cases hfound.1
    | some b =>
      obtain ⟨calls, hlast, hpopped⟩ := h.full b hslot
      rw [hlast, List.map_append]
      exact hpopped.append (List.Sublist.refl _)
  | found hs | popIndividual msg rest hs hqueue | attempt job jobs hs =>
    exact h.congr rfl rfl (sendToEveryoneCalls_append _ _ rfl)
      (by simp [ServerEvent.poppedBroadcast])
  | send job jobs hs _ _ heveryone hcalls hlog =>
    rcases hlog with hlog | ⟨conn, -, hlog⟩
    · exact h.congr hcalls heveryone (by rw [hlog]) (by rw [hlog])
    · refine h.congr hcalls heveryone ?_ ?_
      · rw [hlog, sendToEveryoneCalls_append _ _ rfl]
      · simp [hlog, ServerEvent.poppedBroadcast]
  | control next hs | lockQueue hs | getClient msg client hs | getAllClients b hs
  | skip job jobs hs | drain hs => exact h.congr rfl rfl rfl rfl

/-! ## The history of the mailboxes -/

theorem mailboxes_move (h : History.EachEvent MailboxLegal s.log) (hqueue : s.QueueOk)
    (hslot : s.SlotOk) (hfound : s.FoundOk) (hmove : s.Move t) :
    History.EachEvent MailboxLegal t.log := by
  cases hmove with
  | sendTo msg | sendToEveryone message | popIndividual msg rest | attempt job jobs =>
    exact h.append trivial
  | table _ _ _ _ hlog => rwa [hlog]
  | found hs =>
    refine h.append ?_
    have hcalls := hqueue.calls (by rw [hs]; exact nofun)
    show queueSyncIsEmpty s.outgoing = true ↔ _
    rw [hcalls, queueSyncIsEmpty, List.isEmpty_iff]
    simp
  | popEveryone hs =>
    refine h.append ?_
    unfold FoundOk at hfound
    rw [hs] at hfound
    refine ⟨hfound.2, hfound.1, ?_⟩
    obtain ⟨b, hb⟩ := Option.isSome_iff_exists.mp hfound.1
    obtain ⟨calls, hlast, -⟩ := hslot.full b hb
    rw [hb, hlast, List.getLast?_concat]
  | send job jobs hs _ _ _ _ hlog =>
    rcases hlog with hlog | ⟨conn, -, hlog⟩
    · rwa [hlog]
    · rw [hlog]
      exact h.append trivial
  | control next | lockQueue hs | getClient msg client hs | getAllClients b hs | skip job jobs hs
  | drain hs => exact h

/-! ## The copied records -/

/-- The client does not run any more. -/
def NotRunning (s : Server M) (i : ℕ) : Prop :=
  ∃ client, s.clients[i]? = some client ∧ client.status ≠ .running

theorem NotRunning.status_ne {i : ℕ} {client : ClientRecord} (h : s.NotRunning i)
    (hclient : s.clients[i]? = some client) : client.status ≠ .running := by
  obtain ⟨client', hclient', hstatus⟩ := h
  exact Option.some.inj (hclient'.symm.trans hclient) ▸ hstatus

theorem NotRunning.aged {i : ℕ} (h : s.NotRunning i) (haged : Aged s.clients t.clients) :
    t.NotRunning i := by
  obtain ⟨client, hclient, hstatus⟩ := h
  obtain ⟨client', hclient', hstatus'⟩ := haged i client hclient
  exact ⟨client', hclient', hstatus' hstatus⟩

/-- The sender has one copied record for each client it is still to serve, and a copy that does not
run belongs to a client that does not. -/
structure CopiesOk (s : Server M) : Prop where
  nodup : (s.sender.remaining.map Job.clientId).Nodup
  notRunning : ∀ job ∈ s.sender.remaining, job.client.status ≠ .running → s.NotRunning job.clientId

theorem CopiesOk.of_remaining (h : s.CopiesOk) (haged : Aged s.clients t.clients)
    (hsub : t.sender.remaining.Sublist s.sender.remaining) : t.CopiesOk where
  nodup := h.nodup.sublist (hsub.map _)
  notRunning job hjob hstatus := (h.notRunning job (hsub.subset hjob) hstatus).aged haged

theorem nodup_broadcastJobs (clients : List ClientRecord) (b : Option (Broadcast M)) :
    ((broadcastJobs clients b).map Job.clientId).Nodup := by
  have hids : (broadcastJobs clients b).map Job.clientId = List.range clients.length := by
    unfold broadcastJobs
    rw [List.map_map, List.range_eq_range']
    exact List.zipIdx_map_snd 0 clients
  rw [hids]
  exact List.nodup_range

theorem copiesOk_move (h : s.CopiesOk) (hmove : s.Move t) : t.CopiesOk := by
  cases hmove with
  | sendTo msg | sendToEveryone message => exact h.of_remaining (.refl _) (List.Sublist.refl _)
  | table haged _ _ _ _ hsender => exact h.of_remaining haged (by rw [hsender])
  | control next _ hnext =>
    refine h.of_remaining (.refl _) ?_
    show next.remaining.Sublist _
    rw [Sender.remaining_of_idle hnext]
    exact List.nil_sublist _
  | found hs =>
    refine h.of_remaining (.refl _) ?_
    by_cases hempty : queueSyncIsEmpty s.outgoing = true <;>
      simp [hempty, Sender.remaining]
  | getClient msg client hs hclient =>
    refine ⟨List.nodup_singleton _, fun job hjob hstatus => ?_⟩
    obtain rfl := List.mem_singleton.mp hjob
    exact ⟨client, hclient, hstatus⟩
  | getAllClients b hs =>
    refine ⟨nodup_broadcastJobs s.clients b, fun job hjob hstatus => ?_⟩
    exact ⟨job.client, (mem_broadcastJobs.mp hjob).1, hstatus⟩
  | attempt job jobs hs | skip job jobs hs =>
    refine h.of_remaining (.refl _) ?_
    rw [hs]
    exact List.sublist_cons_self job jobs
  | send job jobs hs haged =>
    refine h.of_remaining haged ?_
    rw [hs.remaining.1, hs.remaining.2]
  | lockQueue hs | popIndividual msg rest hs | popEveryone hs | drain hs =>
    exact h.of_remaining (.refl _) (List.nil_sublist _)

/-! ## Individual messages -/

theorem messagesTo_individualMessage {i : ℕ} {job : Job M} (h : job.clientId ≠ i) :
    messagesTo i job.individualMessage = [] := by
  obtain ⟨clientId, client, payload⟩ := job
  cases payload with
  | individual m => simpa [Job.individualMessage, messagesTo] using h
  | everyone b => rfl

theorem individualMessages_broadcastJobs (clients : List ClientRecord) (b : Option (Broadcast M)) :
    (broadcastJobs clients b).flatMap Job.individualMessage = [] := by
  rw [List.flatMap_eq_nil_iff]
  intro job hjob
  unfold Job.individualMessage
  rw [(mem_broadcastJobs.mp hjob).2]

theorem individualAttempts_attempt (log : List (ServerEvent M)) (job : Job M) :
    individualAttempts (log ++ [.attempt job.clientId job.payload])
      = individualAttempts log ++ job.individualMessage := by
  rw [individualAttempts_append]
  obtain ⟨clientId, client, payload⟩ := job
  cases payload <;> rfl

theorem poppedIndividuals_attempt (log : List (ServerEvent M)) (job : Job M) :
    poppedIndividuals (log ++ [.attempt job.clientId job.payload]) = poppedIndividuals log := by
  simp [ServerEvent.poppedIndividual]

/-- The client will not get another individual message. -/
structure Dropped (s : Server M) (i : ℕ) : Prop where
  attempts : messagesTo i (individualAttempts s.log) <+: messagesTo i (poppedIndividuals s.log)
  notRunning : s.NotRunning i
  copies : ∀ job ∈ s.sender.remaining, job.clientId = i → job.client.status ≠ .running

/-- Every popped message for the client has been attempted or is in the sender's hands, or the
client gets no more. -/
def AttemptsOk (s : Server M) (i : ℕ) : Prop :=
  messagesTo i (individualAttempts s.log) ++ messagesTo i s.sender.pending
      = messagesTo i (poppedIndividuals s.log)
    ∨ s.Dropped i

theorem AttemptsOk.prefix_popped {i : ℕ} (h : s.AttemptsOk i) :
    messagesTo i (individualAttempts s.log) <+: messagesTo i (poppedIndividuals s.log) := by
  rcases h with h | h
  · rw [← h]
    exact List.prefix_append _ _
  · exact h.attempts

theorem AttemptsOk.congr {i : ℕ} (h : s.AttemptsOk i) (haged : Aged s.clients t.clients)
    (hattempts : individualAttempts t.log = individualAttempts s.log)
    (hpopped : poppedIndividuals t.log = poppedIndividuals s.log)
    (hpending : messagesTo i t.sender.pending = messagesTo i s.sender.pending)
    (hsub : t.sender.remaining.Sublist s.sender.remaining) : t.AttemptsOk i := by
  rcases h with h | h
  · refine .inl ?_
    rw [hattempts, hpopped, hpending, h]
  · refine .inr ⟨?_, h.notRunning.aged haged, fun job hjob => h.copies job (hsub.subset hjob)⟩
    rw [hattempts, hpopped]
    exact h.attempts

theorem AttemptsOk.attempt {i : ℕ} (h : s.AttemptsOk i) {job : Job M} {jobs : List (Job M)}
    (hs : s.sender = .serve (job :: jobs)) (hrunning : job.client.status = .running) :
    AttemptsOk { s with
      sender := .sendSize job jobs
      log := s.log ++ [.attempt job.clientId job.payload] } i := by
  have hattempts := individualAttempts_attempt s.log job
  have hpopped := poppedIndividuals_attempt s.log job
  rcases h with h | h
  · refine .inl ?_
    rw [hs] at h
    rw [hattempts, hpopped, ← h, messagesTo_append, List.append_assoc, ← messagesTo_append]
    rfl
  · have hne : job.clientId ≠ i := fun hi =>
      h.copies job (by rw [hs]; simp [Sender.remaining]) hi hrunning
    have hnil := messagesTo_individualMessage hne
    refine .inr ⟨?_, h.notRunning, fun job' hjob' => h.copies job' ?_⟩
    · rw [hattempts, hpopped, messagesTo_append, hnil, List.append_nil]
      exact h.attempts
    · rw [hs]
      exact List.mem_cons_of_mem job hjob'

/-- A client whose job is skipped gets no more: its record does not run, and no record that does
replaces it. -/
theorem AttemptsOk.skip {i : ℕ} (h : s.AttemptsOk i) (hcopies : s.CopiesOk) {job : Job M}
    {jobs : List (Job M)} (hs : s.sender = .serve (job :: jobs))
    (hstopped : job.client.status ≠ .running) : AttemptsOk { s with sender := .serve jobs } i := by
  have hremaining : s.sender.remaining = job :: jobs := by rw [hs]; rfl
  by_cases hi : job.clientId = i
  · refine .inr ⟨h.prefix_popped, hi ▸ hcopies.notRunning job (by simp [hremaining]) hstopped, ?_⟩
    intro job' hjob' hi'
    have hnodup := hcopies.nodup
    rw [hremaining, List.map_cons, List.nodup_cons] at hnodup
    exact absurd (List.mem_map.mpr ⟨job', hjob', hi'.trans hi.symm⟩) hnodup.1
  · have hnil := messagesTo_individualMessage hi
    refine h.congr (.refl _) rfl rfl ?_
      (by rw [hremaining]; exact List.sublist_cons_self job jobs)
    rw [hs]
    show messagesTo i (jobs.flatMap _) = messagesTo i ((job :: jobs).flatMap _)
    rw [List.flatMap_cons, messagesTo_append, hnil, List.nil_append]

theorem attemptsOk_move {i : ℕ} (h : s.AttemptsOk i) (hcopies : s.CopiesOk) (hmove : s.Move t) :
    t.AttemptsOk i := by
  cases hmove with
  | sendTo msg | sendToEveryone message =>
    refine h.congr (.refl _) ?_ ?_ rfl (List.Sublist.refl _) <;>
      simp [ServerEvent.individualAttempt, ServerEvent.poppedIndividual]
  | table haged _ _ _ hlog hsender =>
    exact h.congr haged (by rw [hlog]) (by rw [hlog]) (by rw [hsender]) (by rw [hsender])
  | control next hs hnext =>
    refine h.congr (.refl _) rfl rfl ?_ ?_
    · show messagesTo i next.pending = _
      rw [Sender.pending_of_idle hnext]
      rcases hs with hs | hs
      · rw [Sender.pending_of_idle hs]
      · rw [hs]
        rfl
    · show next.remaining.Sublist _
      rw [Sender.remaining_of_idle hnext]
      exact List.nil_sublist _
  | lockQueue hs => exact h.congr (.refl _) rfl rfl (by rw [hs]; rfl) (List.nil_sublist _)
  | found hs =>
    have hnext : ∀ empty : Bool,
        (if empty then .popEveryone else .popIndividual : Sender M).pending = [] ∧
        (if empty then .popEveryone else .popIndividual : Sender M).remaining = [] := by
      intro empty
      cases empty <;> exact ⟨rfl, rfl⟩
    refine h.congr (.refl _) ?_ ?_ ?_ ?_
    · simp [ServerEvent.individualAttempt]
    · simp [ServerEvent.poppedIndividual]
    · rw [(hnext _).1, hs]
      rfl
    · rw [(hnext _).2]
      exact List.nil_sublist _
  | popIndividual msg rest hs =>
    rcases h with h | h
    · refine .inl ?_
      rw [hs] at h
      simp only [individualAttempts_append, poppedIndividuals_append, ServerEvent.individualAttempt,
        ServerEvent.poppedIndividual, messagesTo_append, List.append_nil, ← h]
      rw [show messagesTo i (Sender.popIndividual : Sender M).pending = [] from rfl,
        List.append_nil]
      rfl
    · refine .inr ⟨?_, h.notRunning, nofun⟩
      simp only [individualAttempts_append, poppedIndividuals_append, ServerEvent.individualAttempt,
        ServerEvent.poppedIndividual, messagesTo_append, List.append_nil]
      exact h.attempts.trans (List.prefix_append _ _)
  | getClient msg client hs hclient =>
    rcases h with h | h
    · refine .inl ?_
      rw [hs] at h
      exact h
    · refine .inr ⟨h.attempts, h.notRunning, fun job hjob hi => ?_⟩
      obtain rfl := List.mem_singleton.mp hjob
      exact h.notRunning.status_ne (hi ▸ hclient)
  | popEveryone hs =>
    refine h.congr (.refl _) ?_ ?_ (by rw [hs]; rfl) (List.nil_sublist _) <;>
      simp [ServerEvent.individualAttempt, ServerEvent.poppedIndividual]
  | getAllClients b hs =>
    rcases h with h | h
    · refine .inl ?_
      rw [hs] at h
      show _ ++ messagesTo i ((broadcastJobs s.clients b).flatMap Job.individualMessage) = _
      rw [individualMessages_broadcastJobs]
      exact h
    · refine .inr ⟨h.attempts, h.notRunning, fun job hjob hi => ?_⟩
      exact h.notRunning.status_ne (hi ▸ (mem_broadcastJobs.mp hjob).1)
  | attempt job jobs hs hrunning => exact h.attempt hs hrunning
  | skip job jobs hs hstopped => exact h.skip hcopies hs hstopped
  | send job jobs hs haged _ _ _ hlog =>
    refine h.congr haged ?_ ?_ (by rw [hs.pending]) (by rw [hs.remaining.1, hs.remaining.2]) <;>
      rcases hlog with hlog | ⟨conn, -, hlog⟩ <;>
      simp [hlog, ServerEvent.individualAttempt, ServerEvent.poppedIndividual]
  | drain hs => exact h.congr (.refl _) rfl rfl (by rw [hs]; rfl) (List.nil_sublist _)

/-! ## Broadcasts -/

/-- What has been attempted to the client or is still to be attempted has been popped, in this
order. -/
def DeliverOk (s : Server M) (i : ℕ) : Prop :=
  (broadcastAttempts i s.log ++ s.sender.unserved i).Sublist (poppedBroadcasts s.log)

theorem DeliverOk.congr {i : ℕ} (h : s.DeliverOk i)
    (hattempts : broadcastAttempts i t.log = broadcastAttempts i s.log)
    (hpopped : poppedBroadcasts t.log = poppedBroadcasts s.log)
    (hunserved : (t.sender.unserved i).Sublist (s.sender.unserved i)) : t.DeliverOk i := by
  unfold DeliverOk
  rw [hattempts, hpopped]
  exact ((List.Sublist.refl _).append hunserved).trans h

/-- A list without repetition names a client at most once. -/
theorem flatMap_broadcastTo_sublist {i : ℕ} {b : Option (Broadcast M)} {jobs : List (Job M)}
    (hnodup : (jobs.map Job.clientId).Nodup) (hpayload : ∀ job ∈ jobs, job.payload = .everyone b) :
    (jobs.flatMap (Job.broadcastTo i)).Sublist [b] := by
  induction jobs with
  | nil => exact List.nil_sublist _
  | cons job jobs ih =>
    rw [List.map_cons, List.nodup_cons] at hnodup
    have hrest := ih hnodup.2 fun job' hjob' => hpayload job' (by simp [hjob'])
    rw [List.flatMap_cons, Job.broadcastTo, hpayload job (by simp)]
    by_cases hi : job.clientId = i
    · have hnil : jobs.flatMap (Job.broadcastTo i) = [] := by
        rw [List.flatMap_eq_nil_iff]
        intro job' hjob'
        have hne : job'.clientId ≠ i := fun hi' =>
          hnodup.1 (List.mem_map.mpr ⟨job', hjob', hi'.trans hi.symm⟩)
        rw [Job.broadcastTo, hpayload job' (by simp [hjob'])]
        exact if_neg hne
      simp [hi, hnil]
    · simpa [hi] using hrest

theorem deliverOk_move {i : ℕ} (h : s.DeliverOk i) (hmove : s.Move t) : t.DeliverOk i := by
  cases hmove with
  | sendTo msg | sendToEveryone message =>
    refine h.congr ?_ ?_ (List.Sublist.refl _) <;>
      simp [ServerEvent.broadcastAttempt, ServerEvent.poppedBroadcast]
  | table _ _ _ _ hlog hsender => exact h.congr (by rw [hlog]) (by rw [hlog]) (by rw [hsender])
  | control next _ hnext =>
    refine h.congr rfl rfl ?_
    show (next.unserved i).Sublist _
    rw [Sender.unserved_of_idle hnext]
    exact List.nil_sublist _
  | found hs =>
    have hnext : ∀ empty : Bool,
        (if empty then .popEveryone else .popIndividual : Sender M).unserved i = [] := by
      intro empty
      cases empty <;> rfl
    refine h.congr (by simp [ServerEvent.broadcastAttempt])
      (by simp [ServerEvent.poppedBroadcast]) ?_
    rw [hnext]
    exact List.nil_sublist _
  | popIndividual msg rest hs =>
    exact h.congr (by simp [ServerEvent.broadcastAttempt]) (by simp [ServerEvent.poppedBroadcast])
      (List.nil_sublist _)
  | popEveryone hs =>
    unfold DeliverOk at h
    rw [hs] at h
    unfold DeliverOk
    rw [broadcastAttempts_append, poppedBroadcasts_append]
    simp only [ServerEvent.broadcastAttempt, List.append_nil]
    exact ((List.sublist_append_left _ _).trans h).append (List.Sublist.refl _)
  | getAllClients b hs =>
    refine h.congr rfl rfl ?_
    rw [hs]
    exact flatMap_broadcastTo_sublist (nodup_broadcastJobs s.clients b)
      fun job hjob => (mem_broadcastJobs.mp hjob).2
  | attempt job jobs hs =>
    have hattempts : broadcastAttempts i (s.log ++ [.attempt job.clientId job.payload])
        = broadcastAttempts i s.log ++ job.broadcastTo i := by
      rw [broadcastAttempts_append]
      obtain ⟨clientId, client, payload⟩ := job
      cases payload <;> rfl
    have hpopped : poppedBroadcasts (s.log ++ [.attempt job.clientId job.payload])
        = poppedBroadcasts s.log := by
      simp [ServerEvent.poppedBroadcast]
    unfold DeliverOk at h
    rw [hs] at h
    unfold DeliverOk
    rw [hattempts, hpopped, List.append_assoc]
    exact h
  | skip job jobs hs =>
    refine h.congr rfl rfl ?_
    rw [hs]
    exact List.sublist_append_right (job.broadcastTo i) _
  | send job jobs hs _ _ _ _ hlog =>
    refine h.congr ?_ ?_ (by rw [hs.unserved]) <;> rcases hlog with hlog | ⟨conn, -, hlog⟩ <;>
      simp [hlog, ServerEvent.broadcastAttempt, ServerEvent.poppedBroadcast]
  | lockQueue hs | getClient msg client hs | drain hs =>
    exact h.congr rfl rfl (List.nil_sublist _)

/-! ## Every run -/

/-- What holds between the steps. -/
structure SenderInv (s : Server M) : Prop where
  queue : s.QueueOk
  found : s.FoundOk
  slot : s.SlotOk
  mailboxes : History.EachEvent MailboxLegal s.log
  copies : s.CopiesOk
  attempts : ∀ i, s.AttemptsOk i
  deliver : ∀ i, s.DeliverOk i

theorem senderInv_initial : (initial : Server M).SenderInv where
  queue := ⟨List.prefix_rfl, fun _ => rfl⟩
  found := trivial
  slot := ⟨rfl, fun _ => List.Sublist.refl _, nofun⟩
  mailboxes := .nil
  copies := ⟨List.nodup_nil, nofun⟩
  attempts _ := .inl rfl
  deliver _ := List.Sublist.refl _

theorem senderInv_move (h : s.SenderInv) (hmove : s.Move t) : t.SenderInv where
  queue := queueOk_move h.queue hmove
  found := foundOk_move h.found hmove
  slot := slotOk_move h.slot h.found hmove
  mailboxes := mailboxes_move h.mailboxes h.queue h.slot h.found hmove
  copies := copiesOk_move h.copies hmove
  attempts i := attemptsOk_move (h.attempts i) h.copies hmove
  deliver i := deliverOk_move (h.deliver i) hmove

theorem SenderInv.senderOrder (h : s.SenderInv) : SenderOrder s.log where
  individual i := (h.attempts i).prefix_popped.trans (messagesTo_mono h.queue.popped)
  broadcast i := ((List.sublist_append_left _ _).trans (h.deliver i)).trans h.slot.popped
  popped i := (List.sublist_append_left _ _).trans (h.deliver i)
  mailboxes := h.mailboxes

theorem senderInv_of_reach {s : Server M} (h : Lts.Reach step Lts.Any initial s) : s.SenderInv :=
  h.invariant senderInv_initial fun _ _ _ hinv _ hstep => senderInv_move hinv (move_of_step hstep)

end Server

/-! ## WELCOME before the map -/

section Host

variable {D F : Type} [Zero D] [One D] [Zero F] [NatCast D] [IntCast D] [OfScientific D] [Add D]
  [Mul D] [LE D] [DecidableLE D] [Trig F D] [OfWord 64 D] [OfWord 32 F]

/-- The calls of `sendTo` made by the handling of one message. -/
def handlingCalls (ρ : Rehash ℕ) (draw : ℤ × ℤ) (g : Game D F) (m : IncomingMessage) :
    List (IndividualMessage (Outgoing D)) :=
  ((handleMessage ρ draw g m).run []).1.2.map fun (message, clientId) => ⟨message, clientId⟩

variable (F) in
/-- The calls of `sendTo` of a host that handles message after message, in whatever state the game
is then. -/
inductive HostCalls : List (IndividualMessage (Outgoing D)) → Prop
  | nil : HostCalls []
  | handle {calls : List (IndividualMessage (Outgoing D))} (ρ : Rehash ℕ) (draw : ℤ × ℤ)
    (g : Game D F) (m : IncomingMessage) (h : HostCalls calls) :
    HostCalls (calls ++ handlingCalls ρ draw g m)

/-- Every map for the client stands directly after its WELCOME. -/
def MapAfterWelcome (i : ℕ) : List (Outgoing D) → Prop :=
  History.DirectlyAfter (· = .welcome i) fun message => ∃ gameMap, message = .map gameMap

/-- A client is answered nothing, a PING reply, or its WELCOME and the map. -/
theorem messagesTo_handlingCalls (ρ : Rehash ℕ) (draw : ℤ × ℤ) (g : Game D F)
    (m : IncomingMessage) (i : ℕ) :
    messagesTo i (handlingCalls ρ draw g m) = []
      ∨ (∃ id, messagesTo i (handlingCalls ρ draw g m) = [.pingReply id])
      ∨ messagesTo i (handlingCalls ρ draw g m) = [.welcome i, .map g.gameMap] := by
  rw [handlingCalls]
  by_cases hi : m.clientId = i
  · subst hi
    rcases handleMessage_replies ρ draw g m [] with h | ⟨id, h⟩ | h <;> rw [h]
    · exact .inl rfl
    · exact .inr (.inl ⟨id, by simp [messagesTo_cons]⟩)
    · exact .inr (.inr (by simp [messagesTo_cons]))
  · rcases handleMessage_replies ρ draw g m [] with h | ⟨id, h⟩ | h <;> rw [h]
    · exact .inl rfl
    · exact .inl (by simp [messagesTo_cons, hi])
    · exact .inl (by simp [messagesTo_cons, hi])

theorem HostCalls.mapAfterWelcome {calls : List (IndividualMessage (Outgoing D))}
    (h : HostCalls F calls) (i : ℕ) : MapAfterWelcome i (messagesTo i calls) := by
  induction h with
  | nil => exact .nil
  | handle ρ draw g m _ ih =>
    rw [messagesTo_append]
    rcases messagesTo_handlingCalls ρ draw g m i with h | ⟨id, h⟩ | h <;> rw [h]
    · rwa [List.append_nil]
    · exact ih.append_of_not (by simp)
    · exact ih.append_pair rfl (by simp)

/-- **The order of the sender.** In every state of every run what is attempted keeps the order of
the calls, and no map is attempted to a client before its WELCOME. -/
theorem senderOrder_of_reach {s : Server (Outgoing D)}
    (h : Lts.Reach Server.step Lts.Any Server.initial s) :
    SenderOrder s.log ∧ ∀ calls, HostCalls F calls → sendToCalls s.log <+: calls →
      ∀ i, MapAfterWelcome i (messagesTo i (individualAttempts s.log)) := by
  have horder := (Server.senderInv_of_reach h).senderOrder
  refine ⟨horder, fun calls hcalls hinitial i => ?_⟩
  exact (hcalls.mapAfterWelcome i).of_initial
    ((horder.individual i).trans (messagesTo_mono hinitial))

end Host

/-- The map without anything on it. -/
def blankMap : GameMap ℝ := ⟨[], 0, 0, [], []⟩

/-- A client connects, the host answers its NEW_CONNECTION and broadcasts, and the sender gets to the
broadcast. -/
def welcomeRun : List (ServerLabel (Outgoing ℝ)) :=
  [.accept 5, .addClient true, .sendTo ⟨.welcome 0, 0⟩, .sendTo ⟨.map blankMap, 0⟩,
    .sendToEveryone (.gameState (Buffer.new 5))] ++ List.replicate 31 (.sender true)

theorem senderOrder_of_reach_welcome :
    ∃ s, Lts.run Server.step welcomeRun Server.initial = some s ∧
      individualAttempts s.log = [⟨.welcome 0, 0⟩, ⟨.map blankMap, 0⟩] ∧
      broadcastAttempts 0 s.log = [some ⟨.gameState (Buffer.new 5), 0⟩] ∧ SenderOrder s.log ∧
      MapAfterWelcome 0 (messagesTo 0 (individualAttempts s.log)) := by
  have hrun : (Lts.run Server.step welcomeRun Server.initial).map
      (fun s => (individualAttempts s.log, broadcastAttempts 0 s.log, sendToCalls s.log)) =
        some ([⟨.welcome 0, 0⟩, ⟨.map blankMap, 0⟩], [some ⟨.gameState (Buffer.new 5), 0⟩],
          [⟨.welcome 0, 0⟩, ⟨.map blankMap, 0⟩]) := rfl
  obtain ⟨s, hs, hlog⟩ := Option.map_eq_some_iff.mp hrun
  obtain ⟨hattempts, hrest⟩ := Prod.mk.inj hlog
  obtain ⟨hbroadcasts, hcalls⟩ := Prod.mk.inj hrest
  obtain ⟨horder, hwelcome⟩ := senderOrder_of_reach (F := ℝ) (.of_run hs)
  have hhost : HostCalls ℝ [⟨.welcome 0, 0⟩, ⟨.map blankMap, 0⟩] :=
    HostCalls.nil.handle Rehash.front (0, 0) (Game.initial blankMap)
      ⟨.newConnection, 0, .ofBytes []⟩
  exact ⟨s, hs, hattempts, hbroadcasts, horder, hwelcome _ hhost (by rw [hcalls]) 0⟩

end PRShooter
