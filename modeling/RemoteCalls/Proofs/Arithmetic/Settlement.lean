import Mathlib.Data.List.Perm.Subperm
import RemoteCalls.Proofs.Arithmetic.Matching

/-!
# RemoteCalls.Proofs.Arithmetic.Settlement

What a session has come to when nothing is left to do in it.

Once the server has handled every request, these are the requests of all calls; and
once the receiver has read every response, each call has its own response, unless
it hangs.  So it has ended with what the table of the service says, or is still in
flight.
-/

namespace RemoteCalls.Arithmetic.Session

open Client

/-- The server has handled every request, and the receiver has read every response and waits for
another one. -/
structure Settled (s : Session) : Prop where
  handled : s.server.requests = (requests s.events).length
  read : (bodiesRead s.events).length = (answers s.handled).length
  waiting : s.client.receiver = .header .size

instance (s : Session) : Decidable s.Settled :=
  decidable_of_iff
    (s.server.requests = (requests s.events).length ∧
      (bodiesRead s.events).length = (answers s.handled).length ∧
      s.client.receiver = .header .size)
    ⟨fun h => ⟨h.1, h.2.1, h.2.2⟩, fun h => ⟨h.handled, h.read, h.waiting⟩⟩

/-- A call has been finished, just once, with an error and a reply such as these. -/
def Ends (s : Session) (id : CallId) (outcome : Status → Reply → Prop) : Prop :=
  (finishes s.events).count id = 1 ∧
    ∃ call, s.client.board.call? id = some call ∧ call.finished = true ∧
      outcome call.error call.reply

/-- A call is in flight, and nothing has happened to it. -/
def Waits (s : Session) (id : CallId) (r : Request Reply) : Prop :=
  id ∈ s.client.board.registry.pending.map (·.2) ∧
    ∃ call, s.client.board.call? id = some call ∧ call.finished = false ∧
      call.error = {} ∧ call.reply = r.reply

section Settled

variable {p : Preamble} {s : Session} {messages : List Message} {i : Intake}

/-! ## Requests -/

/-- No two requests that have been handled have the same number. -/
theorem Conversing.handled_unique (h : Conversing p s messages i) {e e' : Handled}
    (he : e ∈ s.handled) (he' : e' ∈ s.handled) (hseq : e.1.seq = e'.1.seq) : e = e' := by
  obtain ⟨-, m, hm, rfl, -⟩ := h.isRequest_of_handled he
  obtain ⟨-, m', hm', rfl, -⟩ := h.isRequest_of_handled he'
  have hnodup : (messages.map (·.header.seq.toNat)).Nodup :=
    List.pairwise_map.mpr (h.sent.rising.imp fun hlt => Nat.ne_of_lt hlt)
  rw [List.inj_on_of_nodup_map hnodup hm hm' (congrArg UInt64.toNat hseq)]

/-- Only calls that have been begun have been sent. -/
theorem Conversing.sentCalls_subperm (h : Conversing p s messages i) :
    (sentCalls s.events).Subperm ((requests s.events).map (·.1)) := by
  refine List.subperm_of_subset (h.sent.nodup_sentCalls h.turns) fun id hid => ?_
  obtain ⟨m, -, r, hr, -⟩ := h.sent.exists_message hid
  exact List.mem_map_of_mem hr

theorem Settled.done_eq (hs : Settled s) (h : Conversing p s messages i) :
    messages.length = (requests s.events).length ∧ s.handled = messages.map understood := by
  obtain ⟨done, hdone, heq⟩ := h.serves.attends.handled_eq
  have hcount : done.length = (requests s.events).length := by
    rw [← hs.handled, h.serves.count, heq, List.length_map]
  have hle := h.sentCalls_subperm.length_le
  have hwritten := h.sent.written.length_eq
  rw [List.length_map] at hle
  obtain rfl := hdone.eq_of_length_le (by omega)
  exact ⟨hcount, heq⟩

/-- When every request has been handled, every call has been sent. -/
theorem Settled.sentCalls_perm (hs : Settled s) (h : Conversing p s messages i) :
    (sentCalls s.events).Perm ((requests s.events).map (·.1)) := by
  have hall := (hs.done_eq h).1
  have hwritten := h.sent.written.length_eq
  exact h.sentCalls_subperm.perm_of_length_le (by rw [List.length_map]; omega)

/-- The request of every call has been handled. -/
theorem Settled.handled_of_asked (hs : Settled s) (h : Conversing p s messages i) {id : CallId}
    {q : Asked} (hq : (id, q.request) ∈ requests s.events) :
    ∃ header k, (header, q.operands) ∈ s.handled ∧ header.method = q.method ∧ header.error = [] ∧
      RegisteredAfter s.events id header.seq k := by
  obtain ⟨m, hm, r, hr, hregistered, -, hmethod, herror, entries, hbody⟩ :=
    h.sent.exists_message ((hs.sentCalls_perm h).mem_iff.mpr (List.mem_map_of_mem hq))
  obtain rfl := h.custody.request_unique hq hr
  obtain ⟨k, hk⟩ := exists_registeredAfter hregistered
  have hencoded := Message.bodyPayload_ofValue Operands.layout (v := q.operands.toVal)
    ⟨trivial, trivial⟩
  simp only [Asked.request, hencoded] at hbody
  refine ⟨m.header, k, ?_, hmethod, herror, hk⟩
  rw [(hs.done_eq h).2, List.mem_map]
  exact ⟨m, hm, by rw [understood, ← (Prod.mk.inj hbody).1, Operands.ofBody_encode]⟩

/-! ## Responses -/

/-- All answers have been read. -/
theorem Settled.intake_eq (hs : Settled s) (h : Conversing p s messages i) :
    i = .reading (answers s.handled) none := by
  have hreading := hs.waiting ▸ h.reads.reading
  obtain ⟨read, -, rfl, -⟩ := hreading.of_header
  have hbodies := congrArg List.length h.reads.bodies
  rw [hs.read, List.length_map] at hbodies
  have heq : read = answers s.handled := h.read_prefix.1.eq_of_length hbodies.symm
  rw [heq]

/-- All responses can be found. -/
theorem Settled.firstSince_eq (hs : Settled s) (h : Conversing p s messages i) (k : Nat)
    (seq : UInt64) :
    s.firstSince k seq = ((responses s.handled).drop k).find? (·.2.header.seq == seq) := by
  have hall := congrArg List.length h.reads.headers
  rw [hs.intake_eq h] at hall
  simp only [Intake.responses, Intake.opened, Option.toList_none, List.append_nil, List.length_map,
    answers] at hall
  rw [firstSince, hall, List.take_length]

/-- What is found for a call is a response to its request. -/
theorem Settled.mem_respond (hs : Settled s) (h : Conversing p s messages i) (hm : Matched s)
    {header : Header} {x : Operands} (hx : (header, x) ∈ s.handled) {id : CallId} {k : Nat}
    (hregistered : RegisteredAfter s.events id header.seq k) {e : UInt64 × Response}
    (he : s.firstSince k header.seq = some e) :
    e.2 ∈ respond header x ∧ e.2.header.seq = header.seq := by
  have hown := hm.own hregistered he
  rw [hs.firstSince_eq h] at he
  have hmem := List.mem_of_mem_drop (List.mem_of_find?_eq_some he)
  obtain ⟨e', he', hresponse⟩ := List.mem_flatMap.mp hmem
  obtain ⟨r, hr, rfl⟩ := List.mem_map.mp hresponse
  obtain rfl := h.handled_unique he' hx hown
  exact ⟨hr, by simpa using List.find?_some he⟩

/-- A response is found for every call that does not hang. -/
theorem Settled.exists_firstSince (hs : Settled s) (h : Conversing p s messages i) (hm : Matched s)
    {header : Header} {x : Operands} (hx : (header, x) ∈ s.handled)
    (hmethod : header.method ≠ .ofText "Hang") {id : CallId} {k : Nat}
    (hregistered : RegisteredAfter s.events id header.seq k) :
    ∃ e, s.firstSince k header.seq = some e := by
  obtain ⟨before, after, hall⟩ := List.append_of_mem hx
  obtain ⟨r, hr, hseq⟩ := Asked.exists_own_response hmethod x
  have hmem : (header.seq, r) ∈ (responses s.handled).drop k := by
    rw [hall, responses_append, List.drop_append_of_le_length (hm.later hregistered hall rfl)]
    exact List.mem_append_right _ (List.mem_append_left _ (List.mem_map_of_mem hr))
  rw [hs.firstSince_eq h, ← Option.isSome_iff_exists, List.find?_isSome]
  exact ⟨_, hmem, by simpa using hseq⟩

/-! ## Calls -/

/-- A call that hangs is in flight, and nothing has happened to it. -/
theorem Settled.waits (hs : Settled s) (h : Conversing p s messages i) (hm : Matched s)
    (hunsent : ∀ id, .unsent id ∉ s.events) {id : CallId} {q : Asked}
    (hq : (id, q.request) ∈ requests s.events) (hmethod : q.method = .ofText "Hang") :
    s.Waits id q.request := by
  obtain ⟨header, k, hx, hsame, -, hregistered⟩ := hs.handled_of_asked h hq
  have hnone : s.firstSince k header.seq = none := by
    refine Option.eq_none_iff_forall_not_mem.mpr fun e he => ?_
    have hmem := (hs.mem_respond h hm hx hregistered he).1
    rw [Asked.respond_of_hang (hsame.trans hmethod)] at hmem
    contradiction
  obtain ⟨error, reply, hresult, hstands⟩ :=
    h.outcomes.standing id _ _ k hq hregistered (hunsent id)
  have hintake := hs.intake_eq h
  subst hintake
  obtain ⟨-, hpending, rfl, rfl⟩ | ⟨response, hanswer, -⟩ := hstands.of_between
  · have hmem : id ∈ s.client.board.registry.pending.map (·.2) := List.mem_map_of_mem hpending
    have hheld : id ∈ s.client.holdings :=
      List.mem_append_right _ (List.mem_append_right _ hmem)
    obtain ⟨call, hcall, hfinished, -⟩ := h.custody.call_of_mem_holdings hheld
    rw [hcall, Option.map_some, Option.some.injEq] at hresult
    obtain ⟨herror, hreply⟩ := Prod.mk.inj hresult
    exact ⟨hmem, call, hcall, hfinished, herror, hreply⟩
  · rw [h.answer_eq, hnone] at hanswer
    contradiction

/-- A call that does not hang has been answered. -/
theorem Settled.ends (hs : Settled s) (h : Conversing p s messages i) (hm : Matched s)
    (hunsent : ∀ id, .unsent id ∉ s.events) {id : CallId} {q : Asked} (hvalid : q.Valid)
    (hq : (id, q.request) ∈ requests s.events) (hmethod : q.method ≠ .ofText "Hang") :
    id ∉ s.client.board.registry.pending.map (·.2) ∧ s.Ends id q.Answered := by
  obtain ⟨header, k, hx, hsame, herror, hregistered⟩ := hs.handled_of_asked h hq
  obtain ⟨e, hfirst⟩ := hs.exists_firstSince h hm hx (hsame ▸ hmethod) hregistered
  obtain ⟨hr, hown⟩ := hs.mem_respond h hm hx hregistered hfirst
  obtain ⟨error, reply, hresult, hstands⟩ :=
    h.outcomes.standing id _ _ k hq hregistered (hunsent id)
  have hintake := hs.intake_eq h
  subst hintake
  obtain ⟨hnone, -⟩ | ⟨response, hanswer, hout, houtcome⟩ := hstands.of_between
  · rw [h.answer_eq, hfirst] at hnone
    contradiction
  · rw [h.answer_eq, hfirst, Option.map_some, Option.some.injEq] at hanswer
    subst hanswer
    obtain ⟨honce, call, hcall, hfinished⟩ := h.custody.finished_of_released h.turns
      hregistered.mem (hunsent id) (by simp [hs.waiting, Receiver.held]) hout
    rw [hcall, Option.map_some, Option.some.injEq] at hresult
    refine ⟨fun hmem => ?_, honce, call, hcall, hfinished, ?_⟩
    · obtain ⟨entry, hentry, rfl⟩ := List.mem_map.mp hmem
      exact hout entry hentry rfl
    · refine Asked.answered_of_respond hvalid hsame herror hr hown ?_
      exact hresult.trans houtcome

end Settled

end RemoteCalls.Arithmetic.Session
