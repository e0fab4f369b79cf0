import RemoteCalls.Proofs.Arithmetic.Service
import RemoteCalls.Proofs.Client.Requests

/-!
# RemoteCalls.Proofs.Arithmetic.Session

A client and an arithmetic server on the two ends of a line that loses nothing.

The client's threads, the server and the line take their steps in any order, and
octets arrive in whatever portions (`Session.step`).  As long as nobody closes the
client, each side is in a run of its own in which the octets of the other side
arrive (`Joined`), so that what is known of either holds of both together
(`Conversing`).
-/

namespace RemoteCalls.Arithmetic

open Client

/-- Whether all calls in a history are calls of the service that are short. -/
def Asks (events : List (Event Reply)) : Prop :=
  ∀ e ∈ requests events, ∃ q : Asked, e.2 = q.request ∧ q.IsShort

theorem Asks.of_append {events new : List (Event Reply)} (h : Asks (events ++ new)) :
    Asks events := by
  intro e he
  refine h e ?_
  rw [requests_append]
  exact List.mem_append_left _ he

/-! ## Sessions -/

/-- A client and a server that are joined, and what has happened to the calls of the one and to the
requests of the other. -/
structure Session where
  client : Client MemoryStream Reply
  server : Server MemoryStream := .start {}
  events : List (Event Reply) := []
  handled : List Handled := []

namespace Session

/-- Who takes the next step. -/
inductive Move where
  /-- A thread of the application or the receiver. -/
  | client (move : Client.Move Reply)
  /-- The server. -/
  | serve
  /-- At most this many octets arrive at the server. -/
  | up (count : Nat)
  /-- At most this many octets arrive at the client. -/
  | down (count : Nat)
  /-- The server's end learns that the client has closed the connection. -/
  | hangUp
  /-- The client's end learns that the server is gone. -/
  | hungUp

/-- The client's end of the line. -/
def near (s : Session) : MemoryStream := s.client.codec.stream

/-- The server's end of the line. -/
def far (s : Session) : MemoryStream := s.server.codec.stream

/-- Of what has been written to `source` and has not arrived at `target`, at most `count` octets
arrive. -/
def convey (count : Nat) (source target : MemoryStream) : MemoryStream :=
  target.arrive ((source.outgoing.drop (target.consumed + target.incoming.length)).take count)

/-- Whether all that has been written to `source` has arrived at `target`. -/
def isConveyed (source target : MemoryStream) : Bool :=
  source.outgoing.length ≤ target.consumed + target.incoming.length

/-- The session after a move. -/
def step (s : Session) : Move → Turn Session
  | .client move =>
      (s.client.step move).map fun client =>
        { s with client, events := s.events ++ s.client.observe move }
  | .serve =>
      s.server.step.map fun server => { s with server, handled := s.handled ++ s.server.observe }
  | .up count => .moved { s with server := s.server.withStream (convey count s.near s.far) }
  | .down count => .moved { s with client := s.client.withStream (convey count s.far s.near) }
  | .hangUp =>
      if s.near.closed && isConveyed s.near s.far then
        .moved { s with server := s.server.withStream s.far.finish }
      else .blocked
  | .hungUp =>
      if s.server.isStopped && isConveyed s.far s.near then
        .moved { s with client := s.client.withStream s.near.finish }
      else .blocked

/-- What a move does. -/
inductive Change (s : Session) : Move → Session → Prop where
  | client {move : Client.Move Reply} {client : Client MemoryStream Reply}
      (h : s.client.step move = .moved client) :
      Change s (.client move) { s with client, events := s.events ++ s.client.observe move }
  | serve {server : Server MemoryStream} (h : s.server.step = .moved server) :
      Change s .serve { s with server, handled := s.handled ++ s.server.observe }
  | up (count : Nat) :
      Change s (.up count) { s with server := s.server.withStream (convey count s.near s.far) }
  | down (count : Nat) :
      Change s (.down count) { s with client := s.client.withStream (convey count s.far s.near) }
  | hangUp (hclosed : s.near.closed = true) (hall : isConveyed s.near s.far = true) :
      Change s .hangUp { s with server := s.server.withStream s.far.finish }
  | hungUp (hstopped : s.server.isStopped = true) (hall : isConveyed s.far s.near = true) :
      Change s .hungUp { s with client := s.client.withStream s.near.finish }

/-- Every move is one of these. -/
theorem change_of_step {s s' : Session} {move : Move} (h : s.step move = .moved s') :
    Change s move s' := by
  cases move with
  | client move =>
      simp only [step] at h
      cases hclient : s.client.step move with
      | moved client =>
          rw [hclient] at h
          obtain rfl := Turn.moved.inj h
          exact .client hclient
      | _ => simp [hclient, Turn.map] at h
  | serve =>
      simp only [step] at h
      cases hserver : s.server.step with
      | moved server =>
          rw [hserver] at h
          obtain rfl := Turn.moved.inj h
          exact .serve hserver
      | _ => simp [hserver, Turn.map] at h
  | up count =>
      obtain rfl := Turn.moved.inj h
      exact .up count
  | down count =>
      obtain rfl := Turn.moved.inj h
      exact .down count
  | hangUp =>
      simp only [step] at h
      split at h
      case isTrue hend =>
        obtain rfl := Turn.moved.inj h
        obtain ⟨hclosed, hall⟩ := Bool.and_eq_true_iff.mp hend
        exact .hangUp hclosed hall
      case isFalse => contradiction
  | hungUp =>
      simp only [step] at h
      split at h
      case isTrue hend =>
        obtain rfl := Turn.moved.inj h
        obtain ⟨hstopped, hall⟩ := Bool.and_eq_true_iff.mp hend
        exact .hungUp hstopped hall
      case isFalse => contradiction

/-- Whether no call is taken for one that the next response does not belong to: if the receiver has
a response to a call that nobody made, no call in flight has its number. -/
def isClear (s : Session) : Bool :=
  match s.client.receiver with
  | .matching response =>
      match (responses s.handled)[(headersRead s.events).length]? with
      | some (seq, _) =>
          seq == response.seq || s.client.board.registry.pending.all (·.1 != response.seq)
      | none => true
  | _ => true

/-- Whether the receiver takes a step. -/
def Move.isReceive : Move → Bool
  | .client .receive => true
  | _ => false

/-- Whether the application may begin a call in this move. -/
def Move.begins : Move → Bool
  | .client move => move.begins
  | _ => false

/-- Moves in any order, from one session to another, in which no call is taken for one that nobody
made. -/
inductive Run (s₀ : Session) : Session → Prop where
  | start : Run s₀ s₀
  | step {s s' : Session} (run : Run s₀ s) (move : Move)
      (hclear : move.isReceive = true → s.isClear = true) (h : s.step move = .moved s') : Run s₀ s'

/-- The session after these moves, unless one of them cannot be made. -/
def trace (s : Session) : List Move → Option Session
  | [] => some s
  | move :: moves =>
      if move.isReceive && !s.isClear then none
      else
        match s.step move with
        | .moved s' => trace s' moves
        | _ => none

theorem Run.trans {s₀ s s' : Session} (run : Run s₀ s) (run' : Run s s') : Run s₀ s' := by
  induction run' with
  | start => exact run
  | step _ move hclear h ih => exact ih.step move hclear h

theorem Run.trace {s₀ s s' : Session} {moves : List Move} (run : Run s₀ s)
    (h : s.trace moves = some s') : Run s₀ s' := by
  induction moves generalizing s with
  | nil =>
      obtain rfl := Option.some.inj h
      exact run
  | cons move moves ih =>
      simp only [Session.trace] at h
      split at h
      case isTrue => contradiction
      case isFalse hclear =>
        cases hstep : s.step move with
        | moved next =>
            simp only [hstep] at h
            exact ih (run.step move (by simpa using hclear) hstep) h
        | _ => simp [hstep] at h

/-- What happens in a session is added to what has happened before. -/
theorem Change.events {s s' : Session} {move : Move} (h : Change s move s') :
    ∃ new, s'.events = s.events ++ new := by
  cases h with
  | client => exact ⟨_, rfl⟩
  | _ => exact ⟨[], (List.append_nil _).symm⟩

/-- Calls are only begun in moves that begin one. -/
theorem requests_of_trace {s s' : Session} {moves : List Move} (h : s.trace moves = some s')
    (hmoves : ∀ move ∈ moves, move.begins = false) : requests s'.events = requests s.events := by
  induction moves generalizing s with
  | nil =>
      obtain rfl := Option.some.inj h
      rfl
  | cons move moves ih =>
      obtain ⟨hmove, hmore⟩ := List.forall_mem_cons.mp hmoves
      simp only [trace] at h
      split at h
      case isTrue => contradiction
      case isFalse =>
        cases hstep : s.step move with
        | moved next =>
            simp only [hstep] at h
            rw [ih h hmore]
            cases change_of_step hstep with
            | client =>
                rw [requests_append, Client.requests_observe _ hmove, List.append_nil]
            | _ => rfl
        | _ => simp [hstep] at h

/-- A session in which the client makes calls of the service, and nobody closes it. -/
structure Ongoing (s : Session) : Prop where
  few : (registrations s.events).length < Registry.seqLimit
  notClosing : .closing ∉ s.events
  asks : Asks s.events

theorem Ongoing.of_change {s s' : Session} {move : Move} (h : Ongoing s')
    (hchange : Change s move s') : Ongoing s := by
  obtain ⟨new, hnew⟩ := hchange.events
  obtain ⟨hfew, hopen, hasks⟩ := h
  rw [hnew] at hfew hopen hasks
  exact ⟨few_of_append hfew, fun hmem => hopen (List.mem_append_left _ hmem), hasks.of_append⟩

/-! ## Both sides of a session -/

/-- A session whose client has been opened. -/
def opened (p : Preamble) (log : List Log.Entry) (order : Registry.Order) : Session :=
  { client := Client.start { stream := { outgoing := Frame.encode p.octets } } p log order }

/-- A session in which nobody closes the client, as a run of each side: what arrives is what the
other side has written by now. -/
structure Joined (p : Preamble) (log : List Log.Entry) (order : Registry.Order) (s : Session) :
    Prop where
  client : Client.Run (MemoryStream.Inflow s.far.outgoing) (opened p log order).client s.events
    s.client
  server : Server.Run (MemoryStream.Inflow s.near.outgoing) (.start {}) s.handled s.server
  near : s.near.IsOpen
  unsent : ∀ id, .unsent id ∉ s.events

/-- What is known of both sides of a session: the requests that have been written, and how far the
client has come with the responses. -/
structure Conversing (p : Preamble) (s : Session) (messages : List Message) (i : Intake) :
    Prop where
  custody : s.client.Custody s.events
  turns : s.client.Turns s.events
  sent : s.client.Sent MemoryStream.outlet (Frame.encode p.octets) s.events messages []
  answerable : ∀ m ∈ messages, Answerable m
  serves : s.server.Serves (MemoryStream.pipe s.near.outgoing) p.octets messages [] s.handled
  reads : s.client.Reads ((MemoryStream.pipe s.far.outgoing).delivery .connectionClosed)
    defaultLimit s.far.outgoing s.events i
  outcomes : Outcomes s.events s.client i

section Joined

variable {p : Preamble} {log : List Log.Entry} {order : Registry.Order} {s s' : Session}

theorem joined_opened (p : Preamble) (log : List Log.Entry) (order : Registry.Order) :
    Joined p log order (opened p log order) where
  client := .start
  server := .start
  near := ⟨rfl, rfl, rfl, rfl, rfl, rfl⟩
  unsent _ := List.not_mem_nil

/-- A request that has been written can be answered. -/
theorem answerable_of_isRequest {events : List (Event Reply)} (hasks : Asks events) {id : CallId}
    {m : Message} (hfits : m.Fits defaultLimit) (h : IsRequest events id m) : Answerable m := by
  obtain ⟨r, hr, -, hservice, hmethod, herror, -⟩ := h
  obtain ⟨q, rfl, hshort⟩ := hasks _ hr
  exact ⟨hfits, herror, by rw [hservice, hmethod]; exact hshort⟩

/-- As long as nobody closes the client, both sides are what their own theory says. -/
theorem Joined.conversing (hpre : Accepted p) (h : Joined p log order s) (hongoing : Ongoing s) :
    ∃ messages i, Conversing p s messages i := by
  obtain ⟨hfew, hopen, hasks⟩ := hongoing
  have hquiet (all : Bytes) (t t' : MemoryStream) (hflow : MemoryStream.Inflow all t t') :
      MemoryStream.outlet.Kept t t' := by
    obtain ⟨count, rfl⟩ := hflow
    exact ⟨rfl, id⟩
  obtain ⟨messages, part, hsent⟩ := h.client.sent (hquiet _) hfew
  obtain rfl : part = [] := hsent.cut.resolve_right fun hbroken => hbroken.1
  have hanswerable : ∀ m ∈ messages, Answerable m := by
    intro m hm
    obtain ⟨id, hrequest⟩ := hsent.exists_call hm
    exact answerable_of_isRequest hasks (hsent.fits m hm) hrequest
  have hwritten : s.near.outgoing = Frame.encode p.octets ++ messages.flatMap Message.encode := by
    have htaken := hsent.taken
    rwa [List.append_nil] at htaken
  have hidle : (MemoryStream.pipe s.near.outgoing).Holds {}
      (Frame.encode p.octets ++ messages.flatMap Message.encode) :=
    ⟨⟨rfl, rfl, rfl, rfl, rfl, rfl⟩, hwritten.symm, List.nil_prefix⟩
  have hserves := h.server.serves
    (fun t t' left hflow hholds => ⟨hflow.holds hholds, (hquiet _ t t' hflow).1⟩) hpre
    hanswerable hidle
  have hfresh : ((MemoryStream.pipe s.far.outgoing).delivery .connectionClosed).Holds
      { outgoing := Frame.encode p.octets } s.far.outgoing :=
    ⟨⟨rfl, rfl, rfl, rfl, rfl, rfl⟩, rfl, List.nil_prefix⟩
  obtain ⟨i, hreads, houtcomes⟩ := h.client.outcomes (by decide)
    (fun _ _ _ hflow hholds => hflow.holds hholds) hfresh hfew hopen
  exact ⟨messages, i, h.client.custody hfew, h.client.turns hfew, hsent, hanswerable, hserves,
    hreads, houtcomes⟩

/-- The request of a call of the service is always written. -/
theorem Conversing.write_ne_fault {messages : List Message} {i : Intake}
    (h : Conversing p s messages i) (hnear : s.near.IsOpen) (hasks : Asks s.events) {id : CallId}
    {waits : Bool} {call : Call Reply} (htask : .send id waits .writing ∈ s.client.tasks)
    (hcall : s.client.board.call? id = some call) {codec : Codec MemoryStream}
    {entries : List Log.Entry} {f : Fault} :
    s.client.codec.write s.client.header call.args ≠ (codec, entries, some f) := by
  have hlimit := h.sent.limit
  obtain ⟨call', hcurrent, hheader⟩ := h.turns.ready _ htask
  obtain rfl : call' = call := Option.some.inj (hcurrent.1.symm.trans hcall)
  obtain ⟨r, hr, hasked⟩ := request_of_call? h.custody h.turns hcall
  obtain ⟨q, rfl, hshort⟩ := hasks _ hr
  simp only [Call.asked, Request.asked, Asked.request, Prod.mk.injEq] at hasked
  obtain ⟨hservice, hmethod, hargs, -⟩ := hasked
  have hwriting : Message.ofWriting s.client.codec.limit (s.client.header, call'.args) =
      some ⟨s.client.header, Operands.layout.encode q.operands.toVal⟩ := by
    rw [hlimit, hargs]
    refine Message.ofWriting_ofValue _ _ ⟨trivial, trivial⟩ ?_ (Asked.length_body q.operands)
    rw [hheader]
    exact hshort.length_header hservice hmethod rfl
  intro hwrite
  have hsmall : s.client.codec.limit < Ty.countLimit := by
    rw [hlimit]
    decide
  obtain ⟨m, stream, entries', -, hwritten, -⟩ | ⟨entries', fault, hnone, -⟩ :=
    Codec.write_accepted MemoryStream.acceptance ⟨hnear.closed, hnear.writeFault⟩ hsmall
      (s.client.header, call'.args)
  · rw [hwrite] at hwritten
    simp at hwritten
  · rw [hwriting] at hnone
    contradiction

/-- A step of the client, who closes nothing. -/
theorem Joined.client_step (h : Joined p log order s) {messages : List Message} {i : Intake}
    (hboth : Conversing p s messages i) (hasks : Asks s.events) {move : Client.Move Reply}
    {client : Client MemoryStream Reply} (hstep : s.client.step move = .moved client) :
    Joined p log order { s with client, events := s.events ++ s.client.observe move } := by
  have hchange := Client.change_of_step hboth.custody.numbered hboth.custody.readsReply hstep
  have honward : client.codec.stream.IsOpen ∧
      s.near.outgoing <+: client.codec.stream.outgoing := by
    refine hchange.stream (P := fun t => t.IsOpen ∧ s.near.outgoing <+: t.outgoing) ?_ ?_
      hboth.reads.sends ⟨h.near, List.prefix_refl _⟩
    · rintro t t' count got fault ⟨hopen, hle⟩ hread
      obtain ⟨-, -, -, rfl⟩ := MemoryStream.read_of_isOpen hopen hread
      exact ⟨hopen.flow .., hle⟩
    · rintro t out ⟨hopen, hle⟩
      rw [MemoryStream.write_of_isOpen hopen]
      exact ⟨hopen.flow ..,
        hle.trans (List.prefix_append ..)⟩
  refine ⟨h.client.step move hstep, h.server.mono fun _ _ hflow => hflow.mono honward.2,
    honward.1, fun id hmem => ?_⟩
  obtain hold | hnew := List.mem_append.mp hmem
  · exact h.unsent id hold
  · obtain ⟨waits, call, codec, entries, f, htask, hcall, hwrite⟩ := hchange.unsent hnew
    exact hboth.write_ne_fault h.near hasks htask hcall hwrite

/-- A step of the server. -/
theorem Joined.serve (hpre : Accepted p) (h : Joined p log order s) {messages : List Message} {i : Intake}
    (hboth : Conversing p s messages i) {server : Server MemoryStream}
    (hstep : s.server.step = .moved server) :
    Joined p log order { s with server, handled := s.handled ++ s.server.observe } := by
  have hserves := hboth.serves.step hpre hboth.answerable hstep
  have honward : s.far.outgoing <+: server.codec.stream.outgoing := by
    have hbefore : s.far.outgoing = _ := hboth.serves.answered
    have hafter : server.codec.stream.outgoing = _ := hserves.answered
    rw [hbefore, hafter, answers_append, List.flatMap_append, List.nil_append, List.nil_append]
    exact List.prefix_append ..
  exact ⟨h.client.mono fun _ _ hflow => hflow.mono honward, h.server.step hstep, h.near, h.unsent⟩

/-- As long as nobody closes the client, a session stays a run of each side. -/
theorem Joined.step (hpre : Accepted p) (h : Joined p log order s) (hongoing : Ongoing s) {move : Move}
    (hchange : Change s move s') : Joined p log order s' := by
  obtain ⟨messages, i, hboth⟩ := h.conversing hpre hongoing
  cases hchange with
  | client hstep => exact h.client_step hboth hongoing.asks hstep
  | serve hstep => exact h.serve hpre hboth hstep
  | up count => exact ⟨h.client, h.server.outside _ ⟨count, rfl⟩, h.near, h.unsent⟩
  | down count =>
      exact ⟨h.client.outside _ ⟨count, rfl⟩, h.server, h.near.flow .., h.unsent⟩
  | hangUp hclosed =>
      rw [h.near.closed] at hclosed
      contradiction
  | hungUp hstopped =>
      exact absurd (of_decide_eq_true hstopped) hboth.serves.attends.ne_stopped

/-- A session in which nobody closes the client is a run of each side. -/
theorem Run.joined (hpre : Accepted p) (run : Run (opened p log order) s) (hongoing : Ongoing s) :
    Joined p log order s := by
  induction run with
  | start => exact joined_opened p log order
  | step _ move _ hstep ih =>
      have hchange := change_of_step hstep
      have hbefore := hongoing.of_change hchange
      exact (ih hbefore).step hpre hbefore hchange

/-- In a session in which nobody closes the client, both sides are what their own theory says. -/
theorem Run.conversing (hpre : Accepted p) (run : Run (opened p log order) s) (hongoing : Ongoing s) :
    ∃ messages i, Conversing p s messages i :=
  (run.joined hpre hongoing).conversing hpre hongoing

end Joined

end Session

end RemoteCalls.Arithmetic
