import PRShooter.ClientParts
import PRShooter.ClientReceive
import PRShooter.Commands
import PRShooter.HostProcess
import PRShooter.MapText
import PRShooter.PlayerIds

/-!
# What the clients see

The whole way down: the threads of the host, those of the server, a TCP stream cut into pieces and
`receive_message`. As long as the frames for a client reach its connection and no header of four bytes
arrives in pieces (`wholeHeader`: `recv(4)` is not repeated), what the client decodes are the replies
to its own messages, in their order and none left out, between pictures of the game: each one is the
game at some moment, and a later picture is never of an earlier moment (`seen_of_process`).
-/

set_option linter.unusedSectionVars false

namespace PRShooter

open LittleEndian Framing

/-! ## Bodies -/

/-- The message in a buffer that was filled from the start is everything that was written. -/
theorem Buffer.take_size_append (n : ℕ) {bs : List UInt8} (h : bs.length < 2 ^ 32) :
    ((Buffer.new n).append bs).written.take ((Buffer.new n).append bs).size.toNat = bs := by
  have hsize : ((Buffer.new n).append bs).size.toNat = bs.length := by
    simp only [append, new, UInt32.zero_add, UInt32.toNat_ofNat']
    exact Nat.mod_eq_of_lt h
  rw [hsize]
  exact List.take_length

section Bodies

variable {D F : Type} [ToWord 64 D] [ToWord 32 F] [NatCast D]

/-- What is sent of a message: as many bytes of its buffer as `size` says. -/
def Outgoing.body (message : Outgoing D) : List UInt8 :=
  message.buffer.written.take message.buffer.size.toNat

/-- What the sender writes behind the size; a `NULL` message is empty. -/
def Payload.body : Payload (OutgoingMessage D) → List UInt8
  | .individual message => message.content.body
  | .everyone (some broadcast) => broadcast.message.content.body
  | .everyone none => []

/-! ## What a message tells -/

/-- The counts and the ids of a state fit into the fields of a GAME_STATE. -/
structure Game.Fits (g : Game D F) : Prop where
  players : g.players.keys.length < 65536
  projectiles : g.projectiles.length < 65536
  ids : ∀ p ∈ g.playerList, p.playerId < 65536
  owners : ∀ p ∈ g.projectiles, p.ownerId < 65536

/-- A message for a client: a reply to it, or a state of the game. -/
inductive News (D F : Type) where
  | reply (message : Outgoing D)
  | state (g : Game D F)

namespace News

def message : News D F → Outgoing D
  | .reply message => message
  | .state g => .gameState (serializeGameState g)

def reply? : News D F → Option (Outgoing D)
  | .reply message => some message
  | .state _ => none

def state? : News D F → Option (Game D F)
  | .reply _ => none
  | .state g => some g

/-- What the client is to learn from a message whose numbers fit into their fields. -/
inductive Tells : News D F → Client.Received → Prop
  | welcome (playerId : ℕ) (h : playerId < 65536) :
    Tells (.reply (.welcome playerId)) (.welcome playerId (toWord (Constants.playerRadius : D))
      (toWord (Constants.projectileRadius : D)))
  | gameMap (m : GameMap D) (h : m.Fits) : Tells (.reply (.map m)) (.gameMap m.clientView)
  | ping (id : ℕ) (h : id < 65536) : Tells (.reply (.pingReply id)) (.ping id)
  | gameState (g : Game D F) (h : g.Fits) : Tells (.state g) (.gameState g.clientView)

/-- It does learn that. -/
theorem Tells.run_body {news : News D F} {received : Client.Received} (h : news.Tells received) :
    Client.readReceived.run news.message.body = some (received, []) := by
  cases h with
  | welcome playerId h =>
    have hread := reads_welcomeMessage (D := D) playerId []
    rw [List.append_nil, Nat.mod_eq_of_lt h] at hread
    exact hread
  | ping id h => exact reads_pingReply h
  | gameMap m h =>
    have hread : Reads Client.readReceived (bytes 1 DataType.gameMap.toNat ++ encodeMapBody m)
        (.gameMap m.clientView) :=
      (reads_readInt (by decide)).bind (reads_getMapFromBytes h).map
    show Client.readReceived.run ((serializeMap m).written.take (serializeMap m).size.toNat) = _
    rw [serializeMap_eq h, Buffer.take_size_append]
    · simpa using hread []
    · obtain ⟨hwalls, hobstacles, hborders⟩ := h
      rw [List.length_append, length_bytes, length_encodeMapBody]
      omega
  | gameState g h =>
    obtain ⟨hplayers, hprojectiles, hids, howners⟩ := h
    have hcount : g.playerList.length < 65536 := by simpa [Game.playerList] using hplayers
    have hread : Reads Client.readReceived (bytes 1 DataType.gameState.toNat ++ encodeBody g)
        (.gameState g.clientView) :=
      (reads_readInt (by decide)).bind
        (reads_getGamestateFromBytes g hcount hprojectiles hids howners).map
    show Client.readReceived.run
      ((serializeGameState g).written.take (serializeGameState g).size.toNat) = _
    rw [serializeGameState_eq g hplayers hprojectiles, Buffer.take_size_append]
    · simpa using hread []
    · rw [List.length_append, length_bytes, length_encodeBody]
      omega

end News

end Bodies

/-! ## What is attempted -/

/-- What the event adds to what is attempted to be written to client `i`. -/
def ServerEvent.attemptTo {M : Type} (i : ℕ) : ServerEvent M → List (Payload M)
  | .attempt j payload => if j = i then [payload] else []
  | _ => []

/-- What the sender has attempted to write to client `i`. -/
def attemptsTo {M : Type} (i : ℕ) (log : List (ServerEvent M)) : List (Payload M) :=
  log.flatMap (ServerEvent.attemptTo i)

namespace Payload

variable {M : Type}

def individual? : Payload M → Option M
  | .individual message => some message
  | .everyone _ => none

def everyone? : Payload M → Option (Option (Broadcast M))
  | .individual _ => none
  | .everyone broadcast => some broadcast

end Payload

theorem messagesTo_individualAttempts {M : Type} (i : ℕ) (log : List (ServerEvent M)) :
    messagesTo i (individualAttempts log) = (attemptsTo i log).filterMap Payload.individual? := by
  unfold messagesTo individualAttempts attemptsTo
  rw [List.filter_flatMap, List.map_flatMap, List.filterMap_flatMap]
  refine congrArg log.flatMap (funext fun e => ?_)
  cases e with
  | attempt j payload =>
    cases payload <;> by_cases hj : j = i <;>
      simp [ServerEvent.individualAttempt, ServerEvent.attemptTo, hj, Payload.individual?]
  | _ => rfl

theorem broadcastAttempts_eq {M : Type} (i : ℕ) (log : List (ServerEvent M)) :
    broadcastAttempts i log = (attemptsTo i log).filterMap Payload.everyone? := by
  unfold broadcastAttempts attemptsTo
  rw [List.filterMap_flatMap]
  refine congrArg log.flatMap (funext fun e => ?_)
  cases e with
  | attempt j payload =>
    cases payload <;> by_cases hj : j = i <;>
      simp [ServerEvent.broadcastAttempt, ServerEvent.attemptTo, hj, Payload.everyone?]
  | _ => rfl

section Runs

variable {D F : Type} [ToWord 64 D] [ToWord 32 F] [NatCast D]

/-- Attempts whose broadcasts are states of a game are news of it. -/
theorem exists_news (payloads : List (Payload (OutgoingMessage D))) (games : List (Game D F))
    (h : (payloads.filterMap Payload.everyone?).map (fun b => b.map fun b => b.message.content)
      = games.map fun g => some (.gameState (serializeGameState g))) :
    ∃ news : List (News D F), news.map (fun n => n.message.body) = payloads.map Payload.body ∧
      news.filterMap News.state? = games ∧
      news.filterMap News.reply?
        = (payloads.filterMap Payload.individual?).map OutgoingMessage.content := by
  induction payloads generalizing games with
  | nil =>
    obtain rfl : games = [] := by simpa using h.symm
    exact ⟨[], rfl, rfl, rfl⟩
  | cons payload payloads ih =>
    cases payload with
    | individual message =>
      obtain ⟨news, hbodies, hstates, hreplies⟩ := ih games h
      refine ⟨.reply message.content :: news, ?_, hstates, ?_⟩
      · rw [List.map_cons, List.map_cons, hbodies]
        rfl
      · exact congrArg (message.content :: ·) hreplies
    | everyone broadcast =>
      cases games with
      | nil => simp [Payload.everyone?] at h
      | cons g games =>
        obtain ⟨hfirst, hrest⟩ := List.cons.inj h
        obtain ⟨broadcast, rfl, hcontent⟩ := Option.map_eq_some_iff.mp hfirst
        obtain ⟨news, hbodies, hstates, hreplies⟩ := ih games hrest
        refine ⟨.state g :: news, ?_, ?_, hreplies⟩
        · rw [List.map_cons, List.map_cons, hbodies]
          show _ :: _ = broadcast.message.content.body :: _
          rw [hcontent]
          rfl
        · exact congrArg (g :: ·) hstates

end Runs

/-! ## The games that are serialized -/

variable {D F : Type} [Zero D] [One D] [Zero F] [NatCast D] [IntCast D] [OfScientific D] [Add D]
  [Sub D] [Mul D] [Div D] [Neg D] [LT D] [LE D] [DecidableLT D] [DecidableLE D] [HasSqrt D]
  [Trig F D] [ToInt D] [OfWord 64 D] [OfWord 32 F] [ToWord 64 D] [ToWord 32 F]

/-- The second game comes out of the first one. -/
def Game.Later : Game D F → Game D F → Prop := Lts.Reach Game.step Lts.Any

namespace AtomicHost

variable {a b : AtomicHost D F}

theorem states_of_step {e : HostEvent} (h : a.step e = some b) : b.states = a.states ∨
    b.states = a.states ++ [.gameState (serializeGameState a.game)] ∧ b.game = a.game := by
  cases e with
  | serialize => exact .inr (Option.some.inj h ▸ ⟨rfl, rfl⟩)
  | tick ρ =>
    obtain ⟨game, -, rfl⟩ := Option.map_eq_some_iff.mp h
    exact .inl rfl
  | handle ρ draw m =>
    obtain ⟨-, rfl⟩ := handle_eq_some.mp h
    exact .inl rfl

/-- The states are those of a game that went on from each to the next. -/
theorem games_of_run {m : GameMap D} {es : List HostEvent}
    (h : Lts.run AtomicHost.step es (.initial m) = some a) : ∃ games : List (Game D F),
      a.states = games.map (fun g => .gameState (serializeGameState g)) ∧
      (Game.initial m :: games).Pairwise Game.Later ∧
      ∀ g ∈ Game.initial m :: games, g.Later a.game := by
  refine Lts.run_invariant (I := fun a : AtomicHost D F => ∃ games : List (Game D F),
    a.states = games.map (fun g => .gameState (serializeGameState g)) ∧
      (Game.initial m :: games).Pairwise Game.Later ∧
      ∀ g ∈ Game.initial m :: games, g.Later a.game) h ?_ ?_
  · exact ⟨[], rfl, List.pairwise_singleton _ _, fun g hg => List.mem_singleton.mp hg ▸ .refl⟩
  · rintro u e - v ⟨games, hstates, hpairs, hlater⟩ hstep
    have hgame : u.game.Later v.game := by
      rcases game_of_step hstep with hsame | ⟨e', he'⟩
      · exact hsame ▸ .refl
      · exact Lts.Reach.refl.tail trivial he'
    rcases states_of_step hstep with hsame | ⟨hnew, hsame⟩
    · exact ⟨games, hsame.trans hstates, hpairs, fun g hg => (hlater g hg).trans hgame⟩
    · refine ⟨games ++ [u.game], by rw [hnew, hstates, List.map_append]; rfl, ?_, ?_⟩
      · rw [← List.cons_append, List.pairwise_append]
        refine ⟨hpairs, List.pairwise_singleton _ _, fun g hg g' hg' => ?_⟩
        exact List.mem_singleton.mp hg' ▸ hlater g hg
      · intro g hg
        rw [← List.cons_append, List.mem_append, List.mem_singleton] at hg
        rcases hg with hg | rfl
        · exact (hlater g hg).trans hgame
        · exact hgame

end AtomicHost

/-! ## The client at the end of the stream -/

theorem decoded_of_sent {s : Client.Stream}
    (h : Lts.Reach Client.Stream.step Client.wholeHeader .initial s) : s.decoded <+: s.sent := by
  obtain ⟨pending, haligned⟩ : ∃ pending, s.Aligned pending :=
    h.invariant (I := fun s => ∃ pending, s.Aligned pending) ⟨[], Client.Stream.aligned_initial⟩
      fun _ _ _ ⟨_, hI⟩ hok hstep => Client.Stream.aligned_step hI hok hstep
  exact haligned.exact.1

/-- **What the clients see.** In every state of every run of the host process, and however the bytes
arrive at a client to which the frames attempted for it are written, as long as a read of a header that
finds bytes gets all four of them, there is a run of whole game events that explains what the host has
done, such that the messages the client has decoded are the first replies to it, between states of the
game each of which the game went on to from the one before. A message whose numbers fit into their
fields is decoded as what the host meant. -/
theorem seen_of_process [DecidableEq (Outgoing D)] (m : GameMap D) (first : ℤ)
    (p : HostProcess D F) (hreach : Lts.Reach HostProcess.step Lts.Any (.initial m first) p)
    (i : ℕ) (s : Client.Stream)
    (hstream : Lts.Reach Client.Stream.step Client.wholeHeader .initial s)
    (hsent : s.sent <+: (attemptsTo i p.server.server.log).map Payload.body) :
    ∃ es a games, ∃ news : List (News D F),
      Lts.run AtomicHost.step es (.initial m : AtomicHost D F) = some a ∧ p.host.Explains a ∧
      a.states = games.map (fun g => .gameState (serializeGameState g)) ∧
      (Game.initial m :: games).Pairwise Game.Later ∧
      news.filterMap News.reply? <+: repliesTo i a.replies ∧
      (news.filterMap News.state?).Sublist games ∧
      List.Forall₂ (fun n body => ∀ received, n.Tells received →
        Client.readReceived.run body = some (received, [])) news s.decoded := by
  obtain ⟨es, a, hrun, hex⟩ := HostProcess.explained_of_reach hreach
  obtain ⟨games, hstates, hpairs, -⟩ := AtomicHost.games_of_run hrun
  obtain ⟨hreplies, hbroadcasts⟩ := HostProcess.sent_explained hreach hex i
  rw [messagesTo_individualAttempts] at hreplies
  rw [broadcastAttempts_eq, hstates, List.map_map] at hbroadcasts
  -- the attempts the client has decoded
  obtain ⟨payloads, hfirst, hdecoded⟩ := List.prefix_map_iff.mp ((decoded_of_sent hstream).trans hsent)
  obtain ⟨shown, hshown, hcontents⟩ := List.sublist_map_iff.mp
    (((hfirst.filterMap Payload.everyone?).sublist.map _).trans hbroadcasts)
  obtain ⟨news, hbodies, hgames, hmessages⟩ := exists_news payloads shown hcontents
  refine ⟨es, a, games, news, hrun, hex, hstates, hpairs, ?_, hgames ▸ hshown, ?_⟩
  · rw [hmessages]
    exact ((hfirst.filterMap Payload.individual?).map _).trans hreplies
  · rw [hdecoded, ← hbodies, List.forall₂_map_right_iff]
    exact List.forall₂_same.mpr fun n _ _ => News.Tells.run_body

/-- The bodies the second client of `shownRun` is sent. -/
noncomputable def joinedBodies : List (List UInt8) :=
  [(Outgoing.welcome 1 : Outgoing ℝ).body, (Outgoing.map blankMap).body,
    (Outgoing.gameState (serializeGameState joinedGame) : Outgoing ℝ).body]

theorem exists_shown : ∃ u p : HostProcess ℝ ℝ,
    Lts.run HostProcess.step joinedRun (.initial blankMap 0) = some u ∧
    u.host.game = joinedGame ∧ Lts.run HostProcess.step shownRun u = some p ∧
    (attemptsTo 1 p.server.server.log).map Payload.body = joinedBodies :=
  ⟨_, _, rfl, rfl, rfl, rfl⟩

/-- The stream of the second client, read to its end. The WELCOME comes in two pieces. -/
noncomputable def joinedStream : List Client.StreamLabel :=
  joinedBodies.map .send ++ [.arrive 10, .recvHeader 4, .recvBody 6, .arrive 77, .recvBody 13,
    .recvHeader 4, .recvBody 7, .recvHeader 4, .recvBody 49]

theorem along_joinedStream :
    Lts.Along Client.Stream.step Client.wholeHeader joinedStream .initial := by
  simp [joinedStream, joinedBodies, Lts.Along, Client.wholeHeader]

theorem run_joinedStream : ∃ s, Lts.run Client.Stream.step joinedStream .initial = some s ∧
    s.sent = joinedBodies ∧ s.decoded = joinedBodies := by
  obtain ⟨s, hrun, hsent, hlength⟩ : ∃ s, Lts.run Client.Stream.step joinedStream .initial = some s ∧
      s.sent = joinedBodies ∧ s.decoded.length = 3 := ⟨_, rfl, rfl, rfl⟩
  have hdecoded := decoded_of_sent (.of_along hrun along_joinedStream)
  rw [hsent] at hdecoded
  exact ⟨s, hrun, hsent, hdecoded.eq_of_length hlength⟩

theorem fits_joinedGame : joinedGame.Fits where
  players := by show 1 < 65536; decide
  projectiles := by show 0 < 65536; decide
  ids p hp := by
    obtain rfl := List.mem_singleton.mp hp
    show 1 < 65536
    decide
  owners p hp := by cases hp

/-- The second client decodes its WELCOME, the map and the state in which it has joined. -/
theorem seen_of_process_shown : ∃ p s es a, ∃ news : List (News ℝ ℝ),
    Lts.run HostProcess.step (joinedRun ++ shownRun) (.initial blankMap 0 : HostProcess ℝ ℝ)
      = some p ∧
    Lts.run Client.Stream.step joinedStream .initial = some s ∧ s.decoded.length = 3 ∧
    (∃ body ∈ s.decoded,
      Client.readReceived.run body = some (.gameState joinedGame.clientView, [])) ∧
    Lts.run AtomicHost.step es (.initial blankMap : AtomicHost ℝ ℝ) = some a ∧
    p.host.Explains a ∧ news.filterMap News.reply? <+: repliesTo 1 a.replies ∧
    List.Forall₂ (fun n body => ∀ received, n.Tells received →
      Client.readReceived.run body = some (received, [])) news s.decoded := by
  obtain ⟨u, p, hu, -, hp, hbodies⟩ := exists_shown
  have hrun : Lts.run HostProcess.step (joinedRun ++ shownRun) (.initial blankMap 0) = some p := by
    rw [Lts.run_append, hu, Option.bind_some, hp]
  obtain ⟨s, hstream, hsent, hdecoded⟩ := run_joinedStream
  obtain ⟨es, a, games, news, hatomic, hex, -, -, hreplies, -, hnews⟩ := seen_of_process _ 0 p
    (.of_run hrun) 1 s (.of_along hstream along_joinedStream) (by rw [hsent, hbodies])
  have hview := News.Tells.run_body (.gameState joinedGame fits_joinedGame)
  have hlast : (Outgoing.gameState (serializeGameState joinedGame) : Outgoing ℝ).body
      ∈ s.decoded := by
    simp [hdecoded, joinedBodies]
  exact ⟨p, s, es, a, news, hrun, hstream, by simp [hdecoded, joinedBodies], ⟨_, hlast, hview⟩,
    hatomic, hex, hreplies, hnews⟩

end PRShooter
