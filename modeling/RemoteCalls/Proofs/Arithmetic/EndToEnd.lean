import RemoteCalls.Proofs.Arithmetic.Ending

/-!
# RemoteCalls.Proofs.Arithmetic.EndToEnd

Calls of the arithmetic service, from the client to the server and back.
-/

namespace RemoteCalls.Arithmetic.Session

open Client

section EndToEnd

variable {factories : Catalog (MemoryStream → Codec MemoryStream)} {p : Preamble}
  {log : List Log.Entry} {order : Registry.Order} {c₀ : Client MemoryStream Reply} {s : Session}
  {asked : List Asked}

/-- A client that has been opened has written a record that the server accepts. -/
theorem opened_of_establish (hcodec : factories.find? p.codec = some fun stream => { stream })
    (hmark : p.mark = protocolMark) (h : establish factories p {} log order = .opened c₀) :
    { client := c₀ } = opened p log order ∧ Accepted p := by
  obtain ⟨stream, hwrite, rfl⟩ := Client.opened_of_establish hcodec h
  obtain ⟨-, hrecord, hframe, hfits⟩ := Preamble.write_ok hwrite
  rw [MemoryStream.write_of_isOpen ⟨rfl, rfl, rfl, rfl, rfl, rfl⟩] at hrecord
  obtain ⟨rfl, -⟩ := Prod.mk.inj hrecord
  exact ⟨rfl, hframe, Preamble.receive_octets hfits hmark⟩

/-- Calls are numbered in the order in which they are begun. -/
theorem getElem?_requests {events : List (Event Reply)} {c : Client MemoryStream Reply}
    (h : c.Custody events) (hasked : (requests events).map (·.2) = asked.map Asked.request)
    (id : CallId) : (requests events)[id]? = asked[id]?.map fun q => (id, q.request) := by
  have hid := congrArg (·[id]?) h.begun
  have hrequest := congrArg (·[id]?) hasked
  simp only [List.getElem?_map] at hid hrequest
  cases hentry : (requests events)[id]? with
  | none =>
      rw [hentry, Option.map_none, eq_comm, Option.map_eq_none_iff] at hrequest
      rw [hrequest, Option.map_none]
  | some entry =>
      rw [hentry, Option.map_some] at hid hrequest
      obtain ⟨q, hq, heq⟩ := Option.map_eq_some_iff.mp hrequest.symm
      obtain ⟨hlt, hsame⟩ := List.getElem?_eq_some_iff.mp hid.symm
      rw [List.getElem_range] at hsame
      rw [hq, Option.map_some, hsame, heq]

theorem exists_asked {events : List (Event Reply)} {c : Client MemoryStream Reply}
    (h : c.Custody events) (hasked : (requests events).map (·.2) = asked.map Asked.request)
    {id : CallId} {call : Call Reply} (hcall : c.board.call? id = some call) :
    ∃ q, asked[id]? = some q := by
  have hlen := congrArg List.length hasked
  have hbegun := congrArg List.length h.begun
  have hlt := (List.getElem?_eq_some_iff.mp hcall).1
  simp only [List.length_map, List.length_range] at hlen hbegun
  exact ⟨_, List.getElem?_eq_getElem (hlen ▸ hbegun ▸ hlt)⟩

/-- **Calls of the arithmetic service end as its table says.**  A client that has been opened and a
server are joined by a line that loses nothing, and all parties take their steps in any order.  Once
the server has handled every request and the receiver has read every response, just the calls that
hang are in flight; all others have been finished, once, and stay so.  A call that hangs is finished
when the client is closed, with the loss of its connection. -/
theorem calls_of_the_service (hcodec : factories.find? p.codec = some fun stream => { stream })
    (hmark : p.mark = protocolMark)
    (hopened : establish factories p {} log order = .opened c₀) (run : Run { client := c₀ } s)
    (hasked : (requests s.events).map (·.2) = asked.map Asked.request)
    (hvalid : ∀ q ∈ asked, q.Valid) (hopen : .closing ∉ s.events)
    (hfew : (registrations s.events).length < Registry.seqLimit) (hsettled : s.Settled) :
    (∀ id, id ∈ s.client.board.registry.pending.map (·.2) ↔
      ∃ q, asked[id]? = some q ∧ q.method = .ofText "Hang") ∧
    ∀ id q, asked[id]? = some q →
      (q.method ≠ .ofText "Hang" → ∀ s', Run s s' → requests s'.events = requests s.events →
        s'.Ends id q.Answered) ∧
      (q.method = .ofText "Hang" → s.Waits id q.request ∧
        ∀ s', Run s s' → requests s'.events = requests s.events →
          (s'.client.receiver = .exited → s'.Ends id q.Lost) ∧
          (s'.near.closed = true → s'.client.board.Roomy →
            (∀ t, s'.client.lock ≠ some (.task t)) →
            ∃ steps s'', s'.trace (List.replicate steps (.client .receive)) = some s'' ∧
              s''.Ends id q.Lost)) := by
  obtain ⟨hstart, hpre⟩ := opened_of_establish hcodec hmark hopened
  rw [hstart] at run
  have hasks : Asks s.events := by
    intro e he
    have hmem : e.2 ∈ asked.map Asked.request := hasked ▸ List.mem_map_of_mem he
    obtain ⟨q, hq, heq⟩ := List.mem_map.mp hmem
    exact ⟨q, heq.symm, (hvalid q hq).short⟩
  have hongoing : Ongoing s := ⟨hfew, hopen, hasks⟩
  have hjoined := run.joined hpre hongoing
  have hmatched := run.matched hpre hongoing
  obtain ⟨messages, i, h⟩ := run.conversing hpre hongoing
  have hentry := getElem?_requests h.custody hasked
  have hbegun {id : CallId} {q : Asked} (hq : asked[id]? = some q) :
      (id, q.request) ∈ requests s.events := by
    have hat := hentry id
    rw [hq, Option.map_some] at hat
    exact List.mem_of_getElem? hat
  have hlingers {id : CallId} {q : Asked} (hq : asked[id]? = some q) {s' : Session}
      (run' : Run s s') :=
    hsettled.lingering h hjoined hfew (List.ne_nil_of_mem (hbegun hq)) run'
  have hwaits {id : CallId} {q : Asked} (hq : asked[id]? = some q) :=
    hsettled.waits h hmatched hjoined.unsent (hbegun hq)
  have hends {id : CallId} {q : Asked} (hq : asked[id]? = some q) :=
    hsettled.ends h hmatched hjoined.unsent (hvalid q (List.mem_of_getElem? hq)) (hbegun hq)
  refine ⟨fun id => ⟨fun hmem => ?_, ?_⟩, fun id q hq => ⟨fun hmethod s' run' hnew => ?_,
    fun hmethod => ⟨hwaits hq hmethod, fun s' run' hnew => ⟨?_, ?_⟩⟩⟩⟩
  · obtain ⟨call, hcall, -⟩ := h.custody.call_of_mem_holdings
      (List.mem_append_right _ (List.mem_append_right _ hmem))
    obtain ⟨q, hq⟩ := exists_asked h.custody hasked hcall
    exact ⟨q, hq, Decidable.byContradiction fun hmethod => (hends hq hmethod).1 hmem⟩
  · rintro ⟨q, hq, hmethod⟩
    exact (hwaits hq hmethod).1
  · exact (hlingers hq run' hnew).ends (hends hq hmethod).2
  · exact (hlingers hq run' hnew).lost h.turns (hwaits hq hmethod)
  · exact (hlingers hq run' hnew).lost_of_closed h.turns (hwaits hq hmethod)

end EndToEnd

/-- A sum, a division by zero, a call that hangs, and a call that is answered after a response to a
call that nobody made. -/
theorem calls_of_the_service_four_calls :
    ∃ (asked : List Asked) (c₀ : Client MemoryStream Reply) (s s' : Session),
      asked.map (·.method) = [.ofText "Add", .ofText "Div", .ofText "Hang", .ofText "Orphan"] ∧
      asked.map (·.operands) = [⟨2, 3⟩, ⟨7, 0⟩, ⟨0, 0⟩, ⟨4, 5⟩] ∧
      establish builtinCodecs {} {} [] = .opened c₀ ∧ Run { client := c₀ } s ∧ s.Settled ∧
      s.client.board.registry.pending = [(3, 2)] ∧ Run s s' ∧
      (∀ id q, asked[id]? = some q → q.method ≠ .ofText "Hang" → s'.Ends id q.Answered) ∧
      ∀ id q, asked[id]? = some q → q.method = .ofText "Hang" → s'.Ends id q.Lost := by
  generalize hasked : ([
    { method := .ofText "Add", operands := ⟨2, 3⟩ },
    { method := .ofText "Div", operands := ⟨7, 0⟩ },
    { method := .ofText "Hang", operands := {} },
    { method := .ofText "Orphan", operands := ⟨4, 5⟩ }] : List Asked) = asked
  have hvalid : ∀ q ∈ asked, q.Valid := by
    subst hasked
    decide +kernel
  generalize hgo : (asked.map fun q => Move.client (.go q.request none)) = go
  generalize hwork : (List.range 4).flatMap (fun t => List.replicate 5 (Move.client (.task t))) ++
    .up 1000 :: List.replicate 9 .serve ++ .down 1000 :: List.replicate 15 (.client .receive) = work
  generalize hleave : Move.client (.close false) :: List.replicate 2 (.client (.task 4)) ++
    List.replicate 7 (.client .receive) = leave
  generalize hopening : (establish builtinCodecs {} {} [] : Opening MemoryStream Reply) = opening
  have hbegun : (opening.client?.bind fun c₀ => (Session.trace { client := c₀ } go).map fun s₀ =>
      (requests s₀.events).map (·.2)) = some (asked.map Asked.request) := by
    subst hopening hgo hasked
    rfl
  have hfacts : (opening.client?.bind fun c₀ => (Session.trace { client := c₀ } go).bind fun s₀ =>
      (s₀.trace work).bind fun s => (s.trace leave).map fun s' =>
        (decide (s.Settled ∧ s'.client.receiver = .exited), (registrations s.events).length,
          s.events.any (· matches .closing), s.client.board.registry.pending)) =
      some (true, 4, false, [(3, 2)]) := by
    subst hopening hgo hasked hwork hleave
    decide +kernel
  have hquiet : (∀ move ∈ work, move.begins = false) ∧ ∀ move ∈ leave, move.begins = false := by
    subst hwork hleave
    decide +kernel
  simp only [Option.bind_eq_some_iff, Option.map_eq_some_iff, Prod.mk.injEq, decide_eq_true_eq]
    at hfacts
  obtain ⟨c₀, hclient, s₀, hs₀, s, hs, s', hs', ⟨hsettled, hexited⟩, hfour, hopen, hone⟩ := hfacts
  rw [hclient, Option.bind_some, hs₀, Option.map_some, Option.some.injEq] at hbegun
  have hopened : opening = .opened c₀ := by
    cases opening with
    | opened c => rw [Option.some.inj hclient]
    | _ => contradiction
  have run : Run { client := c₀ } s := (Run.start.trace hs₀).trace hs
  have run' : Run s s' := Run.start.trace hs'
  have hsame := requests_of_trace hs hquiet.1
  have hsame' := requests_of_trace hs' hquiet.2
  have hnever : .closing ∉ s.events := by
    intro hmem
    rw [List.any_eq_true.mpr ⟨_, hmem, rfl⟩] at hopen
    exact Bool.noConfusion hopen
  obtain ⟨-, hcalls⟩ := calls_of_the_service rfl rfl (hopening.trans hopened) run (hsame ▸ hbegun)
    hvalid hnever (by rw [hfour]; decide) hsettled
  refine ⟨asked, c₀, s, s', by rw [← hasked]; rfl, by rw [← hasked]; rfl, hopened, run,
    hsettled, hone, run', fun id q hq hmethod => ?_, fun id q hq hmethod => ?_⟩
  · exact (hcalls id q hq).1 hmethod s' run' hsame'
  · exact (((hcalls id q hq).2 hmethod).2 s' run' hsame').1 hexited

end RemoteCalls.Arithmetic.Session
