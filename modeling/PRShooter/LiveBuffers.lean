import PRShooter.ClientParts
import PRShooter.HostProcess

/-!
# Buffers that are alive

How much memory the messages of the host take. A buffer that has been created and not released is in
the hands of a thread of the host, in `outgoing_queue`, in `message_to_everyone` or with the sender
(`live_perm`). Each of these but the queue has room for one, and a state of the game never comes into
the queue: however slowly the clients read, three states are alive at most (`live_bounded`).
-/

set_option linter.unusedSectionVars false

namespace PRShooter

open Ownership

variable {D F : Type}

/-- The message is a GAME_STATE. -/
def OutgoingMessage.isState (message : OutgoingMessage D) : Bool :=
  match message.content with
  | .gameState _ => true
  | _ => false

theorem isState_eq_false {message : OutgoingMessage D}
    (h : ∀ buffer, message.content ≠ .gameState buffer) : message.isState = false := by
  unfold OutgoingMessage.isState
  split
  · exact absurd ‹_› (h _)
  · rfl

/-! ## Replies are not states -/

variable [Zero D] [One D] [Zero F] [NatCast D] [IntCast D] [OfScientific D] [Add D] [Sub D] [Mul D]
  [Div D] [Neg D] [LT D] [LE D] [DecidableLT D] [DecidableLE D] [HasSqrt D] [Trig F D] [ToInt D]
  [OfWord 64 D] [OfWord 32 F] [ToWord 64 D] [ToWord 32 F]

theorem content_of_mem_serve {g : Game D F} {ρ : Rehash ℕ} {draw : ℤ × ℤ} {m : IncomingMessage}
    {r : Outgoing D × ℕ} (hr : r ∈ (g.serve ρ draw m).2) (buffer : Buffer) :
    r.1 ≠ .gameState buffer := by
  obtain ⟨messageType, clientId, message⟩ := m
  cases messageType with
  | empty | lostConnection => cases hr
  | newConnection =>
    have hreplies : r ∈ [(.welcome clientId, clientId), (.map g.gameMap, clientId)] := hr
    rcases List.mem_pair.mp hreplies with rfl | rfl <;> simp
  | message =>
    rw [serve_message ρ draw _ rfl] at hr
    cases hop : message.op D F <;> simp only [hop, ClientOp.apply, List.not_mem_nil] at hr
    obtain rfl := List.mem_singleton.mp hr
    simp

namespace AtomicHost

theorem content_replies_of_run {m : GameMap D} {es : List HostEvent} {a : AtomicHost D F}
    (h : Lts.run step es (.initial m) = some a) :
    ∀ r ∈ a.replies, ∀ buffer, r.1 ≠ .gameState buffer := by
  refine Lts.run_invariant (I := fun a : AtomicHost D F =>
    ∀ r ∈ a.replies, ∀ buffer, r.1 ≠ .gameState buffer) h nofun ?_
  rintro u e - v hu hstep
  cases e with
  | serialize => exact Option.some.inj hstep ▸ hu
  | tick ρ =>
    obtain ⟨game, -, rfl⟩ := Option.map_eq_some_iff.mp hstep
    exact hu
  | handle ρ draw m =>
    obtain ⟨-, rfl⟩ := handle_eq_some.mp hstep
    intro r hr
    rcases List.mem_append.mp hr with hr | hr
    · exact hu r hr
    · exact content_of_mem_serve hr

end AtomicHost

namespace HostThreads

variable {h : HostThreads D F} {a : AtomicHost D F}

/-- What goes to single clients, now or before, are no states. -/
theorem Explains.isState_reply (hex : h.Explains a)
    (hreplies : ∀ r ∈ a.replies, ∀ buffer, r.1 ≠ .gameState buffer) :
    (∀ msg ∈ h.calls.filterMap HostCall.individual, msg.message.isState = false) ∧
      ∀ message ∈ h.receive.held, message.isState = false := by
  rw [hex.replies] at hreplies
  constructor
  · intro msg hmsg
    obtain ⟨call, hcall, hmade⟩ := List.mem_filterMap.mp hmsg
    cases call with
    | sendTo message clientId =>
      obtain rfl := Option.some.inj hmade
      refine isState_eq_false (hreplies (message.content, clientId) (List.mem_append_left _ ?_))
      exact List.mem_filterMap.mpr ⟨_, hcall, rfl⟩
    | _ => cases hmade
  · intro message hmessage
    refine isState_eq_false ?_
    cases hr : h.receive with
    | unlockMap map clientId | sendMap map clientId =>
      rw [hr] at hmessage hreplies
      obtain rfl := List.mem_singleton.mp hmessage
      exact hreplies (message.content, clientId) (List.mem_append_right _ (List.mem_singleton.mpr rfl))
    | _ =>
      rw [hr] at hmessage
      cases hmessage

theorem length_held_le (h : HostThreads D F) :
    h.send.held.length ≤ 1 ∧ h.receive.held.length ≤ 1 := by
  constructor
  · cases h.send <;> simp [SendPoint.held]
  · cases h.receive <;> simp [ReceivePoint.held]

end HostThreads

/-! ## Where the buffers are -/

namespace HostProcess

variable [DecidableEq (Outgoing D)] {p : HostProcess D F}

/-- The buffers of the server and those that are still to be handed to it. -/
def live (p : HostProcess D F) : List (OutgoingMessage D) :=
  p.server.server.mailboxes ++ p.server.popped.toList ++ p.host.held

/-- Every buffer that has been created has been released or is alive. -/
theorem Inv.live_perm (hinv : p.Inv) :
    (released p.server.heap ++ p.live).Perm (p.host.handed ++ p.host.held) := by
  rw [live, ← List.append_assoc, ← hinv.acquired]
  exact hinv.ok.accounts.balance.append_right p.host.held

theorem Inv.length_created (hinv : p.Inv) :
    (p.host.handed ++ p.host.held).length = p.host.created := by
  simpa using hinv.numbered.length_eq

theorem length_mailboxes_le (s : Server (OutgoingMessage D)) :
    s.mailboxes.length ≤ s.outgoing.length + 1 := by
  have heveryone : s.everyoneData.toList.length ≤ 1 := Option.length_toList_le
  unfold Server.mailboxes
  split
  · exact Nat.zero_le _
  · rw [List.length_append, Server.outgoingData, List.length_map]
    omega

theorem countP_mailboxes_le {s : Server (OutgoingMessage D)} (hqueue : s.QueueOk)
    (hcalls : ∀ msg ∈ sendToCalls s.log, msg.message.isState = false) :
    s.mailboxes.countP OutgoingMessage.isState ≤ 1 := by
  have heveryone : s.everyoneData.toList.length ≤ 1 := Option.length_toList_le
  unfold Server.mailboxes
  split
  case h_1 => exact Nat.zero_le _
  case h_2 hne =>
    have houtgoing : s.outgoingData.countP OutgoingMessage.isState = 0 := by
      refine List.countP_eq_zero.mpr fun message hmessage => ?_
      obtain ⟨msg, hmsg, rfl⟩ := List.mem_map.mp hmessage
      rw [hcalls msg (hqueue.calls hne ▸ List.mem_append_right _ hmsg)]
      exact Bool.false_ne_true
    have hslot := List.countP_le_length (p := OutgoingMessage.isState) (l := s.everyoneData.toList)
    rw [List.countP_append, houtgoing]
    omega

/-- **Memory of the process.** In every state of every run, the buffers that are alive are at most
four more than the messages waiting in `outgoing_queue`, and at most three of them are states of the
game. -/
theorem live_bounded (m : GameMap D) (first : ℤ) (p : HostProcess D F)
    (hreach : Lts.Reach HostProcess.step Lts.Any (.initial m first) p) :
    p.host.created ≤ (released p.server.heap).length + (p.server.server.outgoing.length + 4) ∧
    (p.host.handed ++ p.host.held).countP OutgoingMessage.isState
      ≤ (released p.server.heap).countP OutgoingMessage.isState + 3 := by
  have hinv := inv_of_reach hreach
  obtain ⟨hsend, hreceive⟩ := p.host.length_held_le
  have hpopped : p.server.popped.toList.length ≤ 1 := Option.length_toList_le
  constructor
  · have hlength := hinv.live_perm.length_eq
    have hmailboxes := length_mailboxes_le p.server.server
    rw [hinv.length_created] at hlength
    simp only [live, HostThreads.held, List.length_append] at hlength
    omega
  · obtain ⟨es, a, hrun, hex⟩ := explained_of_reach hreach
    obtain ⟨hcalls, hmaps⟩ := hex.isState_reply (AtomicHost.content_replies_of_run hrun)
    rw [← hinv.sendTo] at hcalls
    have hmailboxes :=
      countP_mailboxes_le (Server.senderInv_of_reach (server_of_reach hreach)).queue hcalls
    have hreceived : p.host.receive.held.countP OutgoingMessage.isState = 0 :=
      List.countP_eq_zero.mpr fun message hmessage => by simp [hmaps message hmessage]
    have hcarried := List.countP_le_length (p := OutgoingMessage.isState)
      (l := p.server.popped.toList)
    have hserialized := List.countP_le_length (p := OutgoingMessage.isState) (l := p.host.send.held)
    have hcount := hinv.live_perm.countP_eq OutgoingMessage.isState
    simp only [List.countP_append, live, HostThreads.held] at hcount ⊢
    omega

end HostProcess

/-- The sender has popped a state, another one is in `message_to_everyone` and a third one has just
been serialized. -/
def stalledSender : List (ProcessLabel ℝ) :=
  (List.replicate 5 .send).map .host ++ List.replicate 7 (.server (.sender true))
    ++ (List.replicate 8 .send).map .host

theorem live_bounded_stalledSender : ∃ p,
    Lts.run HostProcess.step stalledSender (.initial ⟨[], 0, 0, [], []⟩ 0 : HostProcess ℝ ℝ)
      = some p ∧ p.host.created = 3 ∧ released p.server.heap = [] ∧
    (p.host.handed ++ p.host.held).countP OutgoingMessage.isState ≤ 3 := by
  obtain ⟨p, hrun, hcreated, hreleased⟩ : ∃ p, Lts.run HostProcess.step stalledSender
      (.initial ⟨[], 0, 0, [], []⟩ 0 : HostProcess ℝ ℝ) = some p ∧ p.host.created = 3 ∧
      released p.server.heap = [] := ⟨_, rfl, rfl, rfl⟩
  have hbound := (HostProcess.live_bounded _ 0 p (.of_run hrun)).2
  rw [hreleased] at hbound
  exact ⟨p, hrun, hcreated, hreleased, hbound⟩

end PRShooter
