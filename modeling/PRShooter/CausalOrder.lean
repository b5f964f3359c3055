import PRShooter.SenderOrder

/-!
# No broadcast overtakes a reply

The sender prefers `outgoing_queue` to `message_to_everyone`, and holds `message_mutex` from the test
of the queue until it has popped the broadcast. So when a broadcast is popped, every call of `sendTo`
before its `sendToEveryone` has been popped too (`PastOk`), and what was popped for a client has been
attempted before the broadcast is attempted to the same client (`causal_of_reach`).
-/

namespace PRShooter

variable {M : Type}

/-- These events are in front of the call of the broadcast. -/
def CalledAfter (pre log : List (ServerEvent M)) (b : Broadcast M) : Prop :=
  pre ++ [.sendToEveryone b.message] <+: log ∧ (everyoneMessages pre).length = b.call

/-- A broadcast is attempted to a client when every individual message to it that was sent before the
broadcast has been attempted. -/
def CausalLegal (log : List (ServerEvent M)) : ServerEvent M → Prop
  | .attempt i (.everyone (some b)) => ∃ pre, CalledAfter pre log b ∧
      messagesTo i (sendToCalls pre) <+: messagesTo i (individualAttempts log)
  | _ => True

section Log

variable {pre log log' : List (ServerEvent M)} {b : Broadcast M}

theorem CalledAfter.mono (h : CalledAfter pre log b) (hlog : log <+: log') :
    CalledAfter pre log' b :=
  ⟨h.1.trans hlog, h.2⟩

theorem CalledAfter.before (h : CalledAfter pre log b) : pre <+: log :=
  (List.prefix_append _ _).trans h.1

end Log

namespace Server

variable {s t : Server M}

/-! ## Before the broadcast that is sent -/

/-- The broadcast that the sender is about to pop or is sending. -/
def Sending (s : Server M) (b : Broadcast M) : Prop :=
  (s.sender = .popEveryone ∧ s.everyone = some b) ∨ s.sender = .getAllClients (some b) ∨
    ∃ job ∈ s.sender.remaining, job.payload = .everyone (some b)

/-- The broadcast in the slot has been called, and all individual messages before the call of the one
that is sent have been popped. -/
structure PastOk (s : Server M) : Prop where
  slot : ∀ b, s.everyone = some b → ∃ pre, CalledAfter pre s.log b
  sending : ∀ b, s.Sending b → ∃ pre, CalledAfter pre s.log b ∧
    sendToCalls pre <+: poppedIndividuals s.log

theorem not_sending_of_idle {b : Broadcast M} (h : s.sender.idle = true) : ¬ s.Sending b := by
  rintro (⟨hs, -⟩ | hs | ⟨job, hjob, -⟩)
  · rw [hs] at h
    cases h
  · rw [hs] at h
    cases h
  · rw [Sender.remaining_of_idle h] at hjob
    cases hjob

theorem PastOk.keep (h : s.PastOk) (hlog : s.log <+: t.log)
    (heveryone : ∀ b, t.everyone = some b → s.everyone = some b)
    (hsending : ∀ b, t.Sending b → s.Sending b) : t.PastOk where
  slot b hb := by
    obtain ⟨pre, hpre⟩ := h.slot b (heveryone b hb)
    exact ⟨pre, hpre.mono hlog⟩
  sending b hb := by
    obtain ⟨pre, hpre, hpopped⟩ := h.sending b (hsending b hb)
    exact ⟨pre, hpre.mono hlog, hpopped.trans (poppedIndividuals_mono hlog)⟩

/-- An empty queue has been popped to its end. -/
theorem QueueOk.all_popped (h : s.QueueOk) (hs : s.sender ≠ .done)
    (hempty : queueSyncIsEmpty s.outgoing = true) : sendToCalls s.log = poppedIndividuals s.log := by
  have hcalls := h.calls hs
  rwa [List.isEmpty_iff.mp hempty, List.append_nil] at hcalls

/-- A new call replaces the broadcast in the slot, and no other: the sender is not about to pop. -/
theorem PastOk.sendToEveryone (h : s.PastOk) (hslot : s.SlotOk) (message : M)
    (hfree : s.sender.holdsMessage = false) : PastOk { s with
      everyone := some ⟨message, s.everyoneCalls⟩
      everyoneCalls := s.everyoneCalls + 1
      log := s.log ++ [.sendToEveryone message] } := by
  have hmore : s.log <+: s.log ++ [.sendToEveryone message] := List.prefix_append _ _
  refine ⟨fun b hb => ?_, fun b hb => ?_⟩
  · obtain rfl := Option.some.inj hb
    refine ⟨s.log, List.prefix_rfl, ?_⟩
    simp [hslot.count, sendToEveryoneCalls]
  · have hsending : s.Sending b := by
      rcases hb with ⟨hs, -⟩ | hs
      · simp only at hs
        rw [hs] at hfree
        cases hfree
      · exact .inr hs
    obtain ⟨pre, hpre, hpopped⟩ := h.sending b hsending
    exact ⟨pre, hpre.mono hmore, hpopped.trans (poppedIndividuals_mono hmore)⟩

/-- The sender goes for the slot when the queue is empty. -/
theorem PastOk.found (h : s.PastOk) (hqueue : s.QueueOk) (hs : s.sender = .checkQueue) :
    PastOk { s with
      sender := if queueSyncIsEmpty s.outgoing then .popEveryone else .popIndividual
      log := s.log ++ [.found (queueSyncIsEmpty s.outgoing)] } := by
  have hslot : ∀ b, s.everyone = some b → ∃ pre,
      CalledAfter pre (s.log ++ [.found (queueSyncIsEmpty s.outgoing)]) b ∧ pre <+: s.log := by
    intro b hb
    obtain ⟨pre, hpre⟩ := h.slot b hb
    exact ⟨pre, hpre.mono (List.prefix_append _ _), hpre.before⟩
  refine ⟨fun b hb => (hslot b hb).imp fun _ => And.left, fun b hb => ?_⟩
  cases hempty : queueSyncIsEmpty s.outgoing with
  | false => simp [Sending, hempty, Sender.remaining] at hb
  | true =>
    have hb' : s.everyone = some b := by simpa [Sending, hempty, Sender.remaining] using hb
    obtain ⟨pre, hpre, hbefore⟩ := hslot b hb'
    refine ⟨pre, hempty ▸ hpre, ?_⟩
    rw [poppedIndividuals_append, ← hqueue.all_popped (by simp [hs]) hempty]
    exact (sendToCalls_mono hbefore).trans (List.prefix_append _ _)

theorem pastOk_move (h : s.PastOk) (hqueue : s.QueueOk) (hslot : s.SlotOk) (hmove : s.Move t) :
    t.PastOk := by
  have hmono := hmove.log_mono
  cases hmove with
  | sendTo msg => exact h.keep hmono (fun _ => id) fun _ => id
  | sendToEveryone message hfree => exact h.sendToEveryone hslot message hfree
  | table _ _ heveryone _ _ hsender =>
    refine h.keep hmono (fun b hb => heveryone ▸ hb) fun b hb => ?_
    unfold Sending at hb ⊢
    rwa [hsender, heveryone] at hb
  | control next _ hnext =>
    exact h.keep hmono (fun _ => id) fun b hb => absurd hb (not_sending_of_idle hnext)
  | found hs => exact h.found hqueue hs
  | popEveryone hs =>
    refine h.keep hmono (by simp) fun b hb => .inl ⟨hs, ?_⟩
    simpa [Sending, Sender.remaining] using hb
  | getAllClients b hs =>
    refine h.keep hmono (fun _ => id) fun b' hb => .inr (.inl ?_)
    obtain ⟨job, hjob, hpayload⟩ : ∃ job ∈ broadcastJobs s.clients b,
        job.payload = .everyone (some b') := by simpa [Sending, Sender.remaining] using hb
    rw [(mem_broadcastJobs.mp hjob).2] at hpayload
    rw [hs, Payload.everyone.inj hpayload]
  | attempt job jobs hs | skip job jobs hs =>
    refine h.keep hmono (fun _ => id) fun b hb => .inr (.inr ?_)
    obtain ⟨job', hjob', hpayload⟩ : ∃ job' ∈ jobs, job'.payload = .everyone (some b) := by
      simpa [Sending, Sender.remaining] using hb
    refine ⟨job', ?_, hpayload⟩
    rw [hs]
    exact List.mem_cons_of_mem job hjob'
  | send job jobs hs _ _ heveryone =>
    have hsends : t.sender = .sendData job jobs ∨ t.sender = .serve jobs := by
      generalize s.sender = a at hs
      generalize t.sender = a' at hs ⊢
      cases hs <;> simp
    refine h.keep hmono (fun b hb => heveryone ▸ hb) fun b hb => .inr (.inr ?_)
    rw [hs.remaining.1]
    rcases hsends with hsender | hsender <;> simpa [Sending, hsender, Sender.remaining] using hb
  -- the sender has nothing of a broadcast in its hands
  | popIndividual msg rest | getClient msg client | lockQueue hs | drain hs =>
    refine h.keep hmono (fun _ => id) fun b hb => ?_
    simp [Sending, Sender.remaining] at hb

/-! ## The attempts -/

theorem messagesTo_flatMap_of_ne {i : ℕ} {jobs : List (Job M)}
    (h : ∀ job ∈ jobs, job.clientId ≠ i) :
    messagesTo i (jobs.flatMap Job.individualMessage) = [] := by
  induction jobs with
  | nil => rfl
  | cons job jobs ih =>
    rw [List.flatMap_cons, messagesTo_append, messagesTo_individualMessage (h job (by simp)),
      ih fun job' hjob' => h job' (List.mem_cons_of_mem job hjob'), List.append_nil]

/-- A sender that is about to send a broadcast to a client has no individual message for it. -/
theorem CopiesOk.messagesTo_pending (h : s.CopiesOk) {job : Job M} {jobs : List (Job M)}
    (hs : s.sender = .serve (job :: jobs)) {b : Option (Broadcast M)}
    (hpayload : job.payload = .everyone b) : messagesTo job.clientId s.sender.pending = [] := by
  have hnodup := h.nodup
  rw [hs] at hnodup ⊢
  have hothers : ∀ job' ∈ jobs, job'.clientId ≠ job.clientId := fun job' hjob' hid =>
    (List.nodup_cons.mp hnodup).1 (List.mem_map.mpr ⟨job', hjob', hid⟩)
  have hjob : job.individualMessage = [] := by
    rw [Job.individualMessage, hpayload]
  show messagesTo _ ((job :: jobs).flatMap Job.individualMessage) = []
  rw [List.flatMap_cons, hjob, List.nil_append, messagesTo_flatMap_of_ne hothers]

theorem causalLegal_attempt (h : s.PastOk) (hinv : s.SenderInv) {job : Job M} {jobs : List (Job M)}
    (hs : s.sender = .serve (job :: jobs)) (hrunning : job.client.status = .running) :
    CausalLegal s.log (.attempt job.clientId job.payload) := by
  have hmem : job ∈ s.sender.remaining := by
    rw [hs]
    exact List.mem_cons_self
  cases hpayload : job.payload with
  | individual m => trivial
  | everyone b =>
    cases b with
    | none => trivial
    | some b =>
      obtain ⟨pre, hpre, hpopped⟩ := h.sending b (.inr (.inr ⟨job, hmem, hpayload⟩))
      refine ⟨pre, hpre, (messagesTo_mono hpopped).trans ?_⟩
      rcases hinv.attempts job.clientId with hattempts | hdropped
      · rw [← hattempts, hinv.copies.messagesTo_pending hs hpayload, List.append_nil]
      · exact absurd hrunning (hdropped.copies job hmem rfl)

theorem causalLegal_move (h : History.EachEvent CausalLegal s.log) (hpast : s.PastOk)
    (hinv : s.SenderInv) (hmove : s.Move t) : History.EachEvent CausalLegal t.log := by
  cases hmove with
  | sendTo msg | sendToEveryone message | found hs | popIndividual msg rest | popEveryone hs =>
    exact h.append trivial
  | table _ _ _ _ hlog => rwa [hlog]
  | attempt job jobs hs hrunning => exact h.append (causalLegal_attempt hpast hinv hs hrunning)
  | send job jobs hs _ _ _ _ hlog =>
    rcases hlog with hlog | ⟨conn, -, hlog⟩
    · rwa [hlog]
    · rw [hlog]
      exact h.append trivial
  | control next | lockQueue hs | getClient msg client hs | getAllClients b hs | skip job jobs hs
  | drain hs => exact h

/-! ## Every run -/

/-- What holds between the steps. -/
structure CausalInv (s : Server M) : Prop where
  sender : s.SenderInv
  past : s.PastOk
  legal : History.EachEvent CausalLegal s.log

theorem causalInv_initial : (initial : Server M).CausalInv where
  sender := senderInv_initial
  past := ⟨nofun, fun _ hb => absurd hb (not_sending_of_idle rfl)⟩
  legal := .nil

theorem causalInv_move (h : s.CausalInv) (hmove : s.Move t) : t.CausalInv where
  sender := senderInv_move h.sender hmove
  past := pastOk_move h.past h.sender.queue h.sender.slot hmove
  legal := causalLegal_move h.legal h.past h.sender hmove

theorem causalInv_of_reach (h : Lts.Reach step Lts.Any initial s) : s.CausalInv :=
  h.invariant causalInv_initial fun _ _ _ hinv _ hstep => causalInv_move hinv (move_of_step hstep)

end Server

/-- **No broadcast overtakes a reply.** Whatever was sent to a client before a broadcast has been
attempted, in order, before the broadcast is attempted to it. -/
theorem causal_of_reach {s : Server M} (h : Lts.Reach Server.step Lts.Any Server.initial s) :
    History.EachEvent CausalLegal s.log :=
  (Server.causalInv_of_reach h).legal

/-- A client connects, is sent two messages, and then everyone one; the sender gets to the
broadcast. -/
def repliesFirstRun : List (ServerLabel ℕ) :=
  [.accept 5, .addClient true, .sendTo ⟨1, 0⟩, .sendTo ⟨2, 0⟩, .sendToEveryone 3]
    ++ List.replicate 31 (.sender true)

theorem causal_of_reach_repliesFirst : ∃ s,
    Lts.run Server.step repliesFirstRun Server.initial = some s ∧
    s.log = s.log.dropLast ++ [.attempt 0 (.everyone (some ⟨3, 0⟩))] ∧
    CausalLegal s.log.dropLast (.attempt 0 (.everyone (some ⟨3, 0⟩))) := by
  refine ⟨_, rfl, rfl, ?_⟩
  have hreach := Lts.Reach.of_run
    (rfl : Lts.run Server.step repliesFirstRun Server.initial = some _)
  exact causal_of_reach hreach _ _ [] rfl

end PRShooter
