import RemoteCalls.Proofs.Arithmetic.Settlement
import RemoteCalls.Proofs.Client.Rest

/-!
# RemoteCalls.Proofs.Arithmetic.Ending

How a session ends in which nothing is left to do.

Both sides of a settled session are at rest, and they stay at rest when the client
is closed and the server hears of it (`Resting`).  So calls that have been answered
stay as they are, and those that hang are lost with the connection (`Lingering`).
-/

namespace RemoteCalls.Arithmetic

open Client

/-- A server that waits for another request, and to which nothing more comes, hears of nothing but
the end of the connection. -/
theorem Server.stopped_of_isDrained {s s' : Server MemoryStream}
    (hplace : s.phase = .header .size ∨ s.phase = .stopped) (hdrained : s.codec.stream.IsDrained)
    (hstep : s.step = .moved s') :
    s'.codec = s.codec ∧ s'.phase = .stopped := by
  obtain hphase | hphase := hplace
  · cases hgone : s.codec.stream.closed || s.codec.stream.ended with
    | false => simp [step, hphase, stepFrame, Codec.resume_of_isDrained hdrained, hgone] at hstep
    | true =>
        simp only [step, hphase, stepFrame, Codec.resume_of_isDrained hdrained, hgone, if_true,
          onHeader, Header.receive, Turn.moved.injEq] at hstep
        subst hstep
        exact ⟨rfl, rfl⟩
  · simp [step, hphase] at hstep

namespace Session

/-! ## Sessions at rest -/

/-- Neither side has anything to write, and each has read all that the other has written. -/
structure Resting (s : Session) : Prop where
  client : s.client.AtRest
  server : s.server.phase = .header .size ∨ s.server.phase = .stopped
  far : s.far.IsDrained
  up : s.near.outgoing.length ≤ s.far.consumed
  down : s.far.outgoing.length ≤ s.near.consumed

/-- Nothing arrives where all has been read. -/
theorem convey_of_le {source target : MemoryStream} (h : source.outgoing.length ≤ target.consumed)
    (count : Nat) : convey count source target = target := by
  have hnothing : source.outgoing.drop (target.consumed + target.incoming.length) = [] :=
    List.drop_eq_nil_of_le (Nat.le_trans h (Nat.le_add_right ..))
  rw [convey, hnothing, List.take_nil, MemoryStream.arrive, List.append_nil]

section Settled

variable {p : Preamble} {log : List Log.Entry} {order : Registry.Order} {s : Session}
  {messages : List Message} {i : Intake}

/-- When every request has been handled, no thread has anything to send. -/
theorem Settled.isSpent (hs : Settled s) (h : Conversing p s messages i)
    (hunsent : ∀ id, .unsent id ∉ s.events) : ∀ task ∈ s.client.tasks, task.isSpent = true := by
  intro task hmem
  cases task with
  | close drops phase => rfl
  | send id waits phase =>
      have hid : id ∈ s.client.tasks.filterMap Task.own := List.mem_filterMap.mpr ⟨_, hmem, rfl⟩
      rw [h.turns.owners, ← h.custody.begun] at hid
      exact h.sent.isSpent h.turns hmem ((hs.sentCalls_perm h).mem_iff.mpr hid) (hunsent id)

/-- When every request has been handled, the server waits for another one, and has read all
octets. -/
theorem Settled.server_rests (hs : Settled s) (h : Conversing p s messages i)
    (hsome : requests s.events ≠ []) :
    s.server.phase = .header .size ∧ s.far.IsDrained ∧
      s.near.outgoing.length ≤ s.far.consumed := by
  obtain ⟨hall, hhandled⟩ := hs.done_eq h
  have hne := List.length_pos_iff.mpr hsome
  have hattends := h.serves.attends
  generalize hphase : s.server.phase = phase at hattends ⊢
  generalize hlist : s.handled = handled at hattends hhandled
  cases hattends with
  | greeting =>
      have hlen := congrArg List.length hhandled
      rw [List.length_nil, List.length_map] at hlen
      omega
  | @body _ _ done rest m hmessages =>
      have hlen := congrArg List.length hhandled
      rw [hmessages] at hlen
      simp at hlen
  | @header stage left done rest hmessages _ hholds hfront =>
      have hlen := congrArg List.length hhandled
      rw [hmessages] at hlen
      obtain rfl : rest = [] := by simpa using hlen
      obtain ⟨htaken, rfl⟩ := List.append_eq_nil_iff.mp hfront
      obtain ⟨hopen, hleft, hin⟩ := hholds
      refine ⟨?_, ⟨List.prefix_nil.mp hin, hopen.endFault⟩, List.drop_eq_nil_iff.mp hleft.symm⟩
      cases stage with
      | size => rfl
      | payload count =>
          have hfour := congrArg List.length htaken
          rw [Frame.Stage.taken, Bytes.length_ofNatLE] at hfour
          contradiction

/-- When every response has been read, no octets are left. -/
theorem Settled.client_rests (hs : Settled s) (h : Conversing p s messages i) :
    s.near.IsDrained ∧ s.far.outgoing.length ≤ s.near.consumed := by
  have hreading := hs.waiting ▸ h.reads.reading
  obtain ⟨read, left, hread, -, ⟨hopen, hleft, hin⟩, hbytes⟩ := hreading.of_header
  rw [hs.intake_eq h] at hread
  obtain ⟨rfl, -⟩ := Intake.reading.inj hread
  have hanswered : s.far.outgoing = _ := h.serves.answered
  rw [List.nil_append] at hanswered
  rw [← hanswered, List.self_eq_append_right] at hbytes
  obtain rfl := (List.append_eq_nil_iff.mp hbytes).2
  exact ⟨⟨List.prefix_nil.mp hin, hopen.endFault⟩, List.drop_eq_nil_iff.mp hleft.symm⟩

theorem Settled.resting (hs : Settled s) (h : Conversing p s messages i)
    (hunsent : ∀ id, .unsent id ∉ s.events) (hsome : requests s.events ≠ []) : s.Resting := by
  obtain ⟨hphase, hfar, hup⟩ := hs.server_rests h hsome
  obtain ⟨hnear, hdown⟩ := hs.client_rests h
  refine ⟨⟨hs.isSpent h hunsent, ?_, hnear⟩, .inl hphase, hfar, hup, hdown⟩
  rw [hs.waiting]
  rfl

end Settled

/-! ## Sessions that come to their end -/

/-- A session at rest that has come from `s₀`, in which no call has been begun since. -/
structure Lingering (p : Preamble) (log : List Log.Entry) (order : Registry.Order)
    (s₀ s : Session) : Prop where
  resting : s.Resting
  run : Client.Run (fun _ _ => True) (opened p log order).client s.events s.client
  few : (registrations s.events).length < Registry.seqLimit
  registered : registrations s.events = registrations s₀.events
  unsent : ∀ id, .unsent id ∉ s.events
  calls : s₀.client.board.Lingers s.client.board

section Lingering

variable {p : Preamble} {log : List Log.Entry} {order : Registry.Order} {s₀ s s' : Session}

/-- Whatever happens in such a session, it stays such a session unless a call is begun. -/
theorem Lingering.step (h : Lingering p log order s₀ s) {move : Move} (hchange : Change s move s')
    (hnew : requests s'.events = requests s.events) : Lingering p log order s₀ s' := by
  obtain ⟨hresting, run, hfew, hregistered, hunsent, hcalls⟩ := h
  obtain ⟨hclient, hserver, hfar, hup, hdown⟩ := hresting
  cases hchange with
  | @client move client hstep =>
      have hcustody := run.custody hfew
      have hnone : requests (s.client.observe move) = [] := by
        rw [requests_append] at hnew
        exact List.append_right_eq_self.mp hnew
      have hrests := hclient.change
        (Client.change_of_step hcustody.numbered hcustody.readsReply hstep) hnone
      have hsame : registrations (s.events ++ s.client.observe move) = registrations s.events := by
        rw [registrations_append, hrests.registrations, List.append_nil]
      refine ⟨⟨hrests.rest, hserver, hfar, ?_, ?_⟩, run.step move hstep, hsame ▸ hfew,
        hsame.trans hregistered, fun id hmem => ?_, hcalls.trans hrests.calls⟩
      · exact hrests.outgoing ▸ hup
      · exact hrests.consumed ▸ hdown
      · exact (List.mem_append.mp hmem).elim (hunsent id) (hrests.unsent id)
  | @serve server hstep =>
      obtain ⟨hcodec, hstopped⟩ := Server.stopped_of_isDrained hserver hfar hstep
      refine ⟨⟨hclient, .inr hstopped, ?_, ?_, ?_⟩, run, hfew, hregistered, hunsent, hcalls⟩
      all_goals simpa only [near, far, hcodec]
  | up count =>
      rw [convey_of_le hup]
      exact ⟨⟨hclient, hserver, hfar, hup, hdown⟩, run, hfew, hregistered, hunsent, hcalls⟩
  | down count =>
      rw [convey_of_le hdown]
      exact ⟨⟨hclient, hserver, hfar, hup, hdown⟩, run, hfew, hregistered, hunsent, hcalls⟩
  | hangUp =>
      exact ⟨⟨hclient, hserver, ⟨hfar.1, hfar.2⟩, hup, hdown⟩, run, hfew, hregistered, hunsent,
        hcalls⟩
  | hungUp =>
      have hnear := hclient.stream
      exact ⟨⟨⟨hclient.1, hclient.2, ⟨hnear.1, hnear.2⟩⟩, hserver, hfar, hup, hdown⟩,
        run.outside _ trivial, hfew, hregistered, hunsent, hcalls⟩

/-- What happens in a session is added to what has happened before. -/
theorem Run.events (run : Run s₀ s) : ∃ new, s.events = s₀.events ++ new := by
  induction run with
  | start => exact ⟨[], (List.append_nil _).symm⟩
  | step _ move _ hstep ih =>
      obtain ⟨new, hnew⟩ := ih
      obtain ⟨more, hmore⟩ := (change_of_step hstep).events
      exact ⟨new ++ more, by rw [hmore, hnew, List.append_assoc]⟩

theorem Run.lingering (run : Run s s') (h : Lingering p log order s₀ s)
    (hnew : requests s'.events = requests s.events) : Lingering p log order s₀ s' := by
  induction run with
  | start => exact h
  | @step s₁ s₂ run move hclear hstep ih =>
      obtain ⟨new, hbefore⟩ := run.events
      obtain ⟨more, hafter⟩ := (change_of_step hstep).events
      rw [hafter, hbefore, requests_append, requests_append, List.append_assoc,
        List.append_right_eq_self, List.append_eq_nil_iff] at hnew
      obtain ⟨hnone, hmore⟩ := hnew
      refine (ih ?_).step (change_of_step hstep) ?_
      · rw [hbefore, requests_append, hnone, List.append_nil]
      · rw [hafter, requests_append, hmore, List.append_nil]

/-- A settled session stays at rest until another call is begun. -/
theorem Settled.lingering (hs : Settled s) {messages : List Message} {i : Intake}
    (h : Conversing p s messages i) (hjoined : Joined p log order s)
    (hfew : (registrations s.events).length < Registry.seqLimit) (hsome : requests s.events ≠ [])
    (run : Run s s') (hnew : requests s'.events = requests s.events) : Lingering p log order s s' :=
  run.lingering ⟨hs.resting h hjoined.unsent hsome, hjoined.client.mono fun _ _ _ => trivial, hfew,
    rfl, hjoined.unsent, Board.lingers_of_eq rfl⟩ hnew

/-! ## What becomes of calls -/

/-- A call that has ended stays as it is. -/
theorem Lingering.ends (h : Lingering p log order s₀ s) {id : CallId}
    {outcome : Status → Reply → Prop} (hends : s₀.Ends id outcome) : s.Ends id outcome := by
  obtain ⟨-, call, hcall, hfinished, houtcome⟩ := hends
  obtain ⟨call', hcall', hlingers⟩ := h.calls id call hcall
  obtain rfl := hlingers.finished hfinished
  exact ⟨(h.run.custody h.few).count_finishes hcall' hfinished, call', hcall', hfinished, houtcome⟩

/-- When the receiver is gone, a call that was in flight has been lost with the connection. -/
theorem Lingering.lost (h : Lingering p log order s₀ s) (hturns : s₀.client.Turns s₀.events) {id : CallId}
    {r : Request Reply} (hwaits : s₀.Waits id r) (hexited : s.client.receiver = .exited) :
    s.Ends id fun error reply => error.code = .connectionFailure ∧ reply = r.reply := by
  obtain ⟨hpending, before, hbefore, hunfinished, -, hreply⟩ := hwaits
  obtain ⟨entry, hentry, rfl⟩ := List.mem_map.mp hpending
  have hregistered := hturns.records.inFlight entry hentry
  obtain ⟨call, hcall, hlingers⟩ := h.calls _ before hbefore
  obtain ⟨honce, call', hcall', hfinished⟩ := (h.run.custody h.few).finished_of_exited
    (h.run.turns h.few) hexited (h.registered ▸ hregistered) (h.unsent _)
  obtain rfl := Option.some.inj (hcall.symm.trans hcall')
  obtain ⟨f, herror⟩ := hlingers.lost hunfinished hfinished
  exact ⟨honce, call, hcall, hfinished, by rw [herror]; rfl, hlingers.reply.trans hreply⟩

/-- The receiver's moves in a client at rest can be made in its session. -/
theorem trace_of_receive {s : Session} (hrest : s.client.AtRest) {steps : Nat}
    {new : List (Event Reply)} {client : Client MemoryStream Reply}
    (htrace : s.client.trace (List.replicate steps .receive) = some (new, client)) :
    s.trace (List.replicate steps (.client .receive)) =
        some { s with client, events := s.events ++ new } := by
  induction steps generalizing s new with
  | zero =>
      obtain ⟨rfl, rfl⟩ := Prod.mk.inj (Option.some.inj htrace)
      rw [List.append_nil]
      rfl
  | succ steps ih =>
      have hclear : s.isClear = true := by
        unfold isClear
        split
        case h_1 header hat => exact absurd hat (hrest.ne_matching header)
        case h_2 => rfl
      simp only [List.replicate_succ, Client.trace] at htrace
      cases hstep : s.client.step .receive with
      | moved next =>
          simp only [hstep, Option.map_eq_some_iff, Prod.mk.injEq] at htrace
          obtain ⟨⟨later, last⟩, hlater, rfl, rfl⟩ := htrace
          have hnext := (hrest.receive (change_of_stepReceiver hrest.readsReply hstep)).rest
          have hall := @ih
            { s with client := next, events := s.events ++ s.client.observe .receive } hnext later
            hlater
          simp only [List.replicate_succ, trace, hclear, Bool.not_true, Bool.and_false,
            Bool.false_eq_true, if_false, step, hstep, Turn.map, hall, List.append_assoc]
      | _ => simp [hstep] at htrace

/-- Once the client has been closed, the receiver by itself finishes a call that was in flight. -/
theorem Lingering.lost_of_closed (h : Lingering p log order s₀ s) (hturns : s₀.client.Turns s₀.events)
    {id : CallId} {r : Request Reply} (hwaits : s₀.Waits id r) (hclosed : s.near.closed = true)
    (hroom : s.client.board.Roomy) (hlock : ∀ t, s.client.lock ≠ some (.task t)) :
    ∃ steps s', s.trace (List.replicate steps (.client .receive)) = some s' ∧
      s'.Ends id fun error reply => error.code = .connectionFailure ∧ reply = r.reply := by
  have hgone : s.client.codec.stream.closed || s.client.codec.stream.ended :=
    Bool.or_eq_true_iff.mpr (.inl hclosed)
  obtain ⟨steps, new, client, htrace, hexited⟩ :=
    h.resting.client.exits h.run h.few hgone hroom hlock
  have hall := trace_of_receive h.resting.client htrace
  have hnew := requests_of_trace hall fun move hmove => by
    rw [List.eq_of_mem_replicate hmove]
    rfl
  exact ⟨steps, _, hall, ((Run.start.trace hall).lingering h hnew).lost hturns hwaits hexited⟩

end Lingering

end Session

end RemoteCalls.Arithmetic
