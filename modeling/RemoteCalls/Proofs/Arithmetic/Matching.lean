import RemoteCalls.Proofs.Arithmetic.Session

/-!
# RemoteCalls.Proofs.Arithmetic.Matching

Which response of the server belongs to which call.

A request is answered after its call has been registered, and the first response
under a call's number that is looked for since then is the answer to its own
request (`Matched`), unless a call is taken for one that nobody made.
-/

namespace RemoteCalls.Arithmetic.Session

open Client

/-! ## What a client has been sent -/

section Conversing

variable {p : Preamble} {s : Session} {messages : List Message} {i : Intake}

theorem Conversing.fits_answers (h : Conversing p s messages i) :
    ∀ m ∈ answers s.handled, m.Fits defaultLimit := by
  obtain ⟨done, hdone, heq⟩ := h.serves.attends.handled_eq
  refine fun m hm => fits_of_mem_answers (fun e he => ?_) hm
  rw [heq] at he
  obtain ⟨request, hrequest, rfl⟩ := List.mem_map.mp he
  have hable := h.answerable request (hdone.subset hrequest)
  exact ⟨hable.error, hable.names⟩

/-- What has been read are the first of the answers. -/
theorem Conversing.read_prefix (h : Conversing p s messages i) :
    i.messages <+: answers s.handled ∧
      headersRead s.events <+: (responses s.handled).map (·.2.header) := by
  have hall : s.far.outgoing = (answers s.handled).flatMap Message.encode := h.serves.answered
  have hreads := h.reads
  rw [hall] at hreads
  have hfirst := hreads.of_messages h.fits_answers
  rwa [answers, List.map_map] at hfirst

theorem Conversing.length_headersRead (h : Conversing p s messages i) :
    (headersRead s.events).length ≤ (responses s.handled).length := by
  have hle := h.read_prefix.2.length_le
  rwa [List.length_map] at hle

/-- What has been handled are requests that have been written. -/
theorem Conversing.isRequest_of_handled (h : Conversing p s messages i) {e : Handled}
    (he : e ∈ s.handled) : ∃ id, ∃ m ∈ messages, e = understood m ∧ IsRequest s.events id m := by
  obtain ⟨done, hdone, heq⟩ := h.serves.attends.handled_eq
  rw [heq] at he
  obtain ⟨m, hm, rfl⟩ := List.mem_map.mp he
  obtain ⟨id, hrequest⟩ := h.sent.exists_call (hdone.subset hm)
  exact ⟨id, m, hdone.subset hm, rfl, hrequest⟩

end Conversing

/-! ## The first response under a number -/

/-- The first response under `seq` that has been looked for after the first `k`, and the number of
the request that it answers. -/
def firstSince (s : Session) (k : Nat) (seq : UInt64) : Option (UInt64 × Response) :=
  (((responses s.handled).take (headersRead s.events).length).drop k).find?
    (·.2.header.seq == seq)

/-- Requests are handled after their calls have been registered, and the first response under a
call's number since then answers its own request. -/
structure Matched (s : Session) : Prop where
  later : ∀ {id : CallId} {seq : UInt64} {k : Nat} {before after : List Handled} {e : Handled},
    RegisteredAfter s.events id seq k → s.handled = before ++ e :: after → e.1.seq = seq →
      k ≤ (responses before).length
  own : ∀ {id : CallId} {seq : UInt64} {k : Nat} {e : UInt64 × Response},
    RegisteredAfter s.events id seq k → s.firstSince k seq = some e → e.1 = seq

section Matched

variable {p : Preamble} {s s' : Session} {messages : List Message} {i : Intake}

/-- Between two responses, what decides a call is the first response under its number. -/
theorem Conversing.answer_eq {read : List Message}
    (h : Conversing p s messages (.reading read none)) (k : Nat) (seq : UInt64) :
    answer (read.map Message.response) k seq =
      (s.firstSince k seq).map (·.2.message.response) := by
  have hlen : (headersRead s.events).length = read.length := by
    rw [h.reads.headers]
    simp [Intake.responses, Intake.opened]
  have hread : read = ((responses s.handled).take (headersRead s.events).length).map
      (·.2.message) := by
    rw [hlen, List.map_take]
    exact List.prefix_iff_eq_take.mp h.read_prefix.1
  rw [answer, firstSince, hread, List.map_map, ← List.map_drop, List.find?_map]
  rfl

theorem matched_opened (p : Preamble) (log : List Log.Entry) (order : Registry.Order) :
    Matched (opened p log order) where
  later := by
    rintro id seq k before after e ⟨events, more, heq, -⟩
    simp [opened] at heq
  own := by
    rintro id seq k e ⟨events, more, heq, -⟩
    simp [opened] at heq

/-- A call that is registered now has a number that no request handled before has. -/
theorem Conversing.ne_of_registered (h : Conversing p s messages i) {new : List (Event Reply)}
    {b : Board Reply} (hrecords : Records (s.events ++ new) b) {id : CallId} {seq : UInt64}
    (hnew : (id, seq) ∈ registrations new) {e : Handled} (he : e ∈ s.handled) : e.1.seq ≠ seq := by
  rintro rfl
  obtain ⟨other, m, -, rfl, -, -, hregistered, -⟩ := h.isRequest_of_handled he
  have hnodup := hrecords.nodup_numbers
  rw [registrations_append, List.map_append, List.nodup_append] at hnodup
  exact hnodup.2.2 _ (List.mem_map_of_mem hregistered) _ (List.mem_map_of_mem hnew) rfl

/-- A step of the client in which no call is looked for. -/
theorem Matched.keep (h : Matched s) (hboth : Conversing p s messages i)
    {new : List (Event Reply)} (hevents : s'.events = s.events ++ new)
    (hhandled : s'.handled = s.handled) (hrecords : Records s'.events s'.client.board)
    (hnew : headersRead new = []) : Matched s' := by
  rw [hevents] at hrecords
  have hsame : headersRead s'.events = headersRead s.events := by
    rw [hevents, headersRead_append, hnew, List.append_nil]
  constructor
  · intro id seq k before after e hregistered hall hseq
    rw [hevents] at hregistered
    rw [hhandled] at hall
    obtain hold | ⟨first, more, rfl, -⟩ := hregistered.of_append
    · exact h.later hold hall hseq
    · have hnow : (id, seq) ∈ registrations (first ++ .registered id seq :: more) := by
        simp [registrations]
      exact absurd hseq (hboth.ne_of_registered hrecords hnow (by simp [hall]))
  · intro id seq k e hregistered hfirst
    rw [firstSince, hhandled, hsame] at hfirst
    rw [hevents] at hregistered
    obtain hold | ⟨first, more, rfl, hk⟩ := hregistered.of_append
    · exact h.own hold hfirst
    · -- Nothing has been looked for since this registration.
      rw [List.drop_eq_nil_of_le] at hfirst
      · contradiction
      · rw [List.length_take, ← hk, headersRead_append, List.length_append]
        omega

/-- A call in flight that a response is looked for is the one whose request it answers. -/
theorem Conversing.own_of_clear (h : Conversing p s messages i)
    (hunsent : ∀ id, .unsent id ∉ s.events) {response : Header} (hat : s.client.receiver = .matching response) (hclear : s.isClear = true)
    {id : CallId} {k : Nat} (hregistered : RegisteredAfter s.events id response.seq k)
    (hnone : s.firstSince k response.seq = none) {e : UInt64 × Response}
    (he : (responses s.handled)[(headersRead s.events).length]? = some e) :
    e.1 = response.seq := by
  obtain ⟨call, hcall, -⟩ := Option.map_eq_some_iff.mp (h.turns.records.known _ hregistered.mem)
  obtain ⟨r, hr, -⟩ := request_of_call? h.custody h.turns hcall
  obtain ⟨read, rfl⟩ := h.reads.of_matching hat
  obtain ⟨error, reply, -, hstands⟩ := h.outcomes.standing _ _ _ _ hr hregistered (hunsent id)
  rw [hat] at hstands
  obtain ⟨-, hpending, -, -⟩ | ⟨first, hanswer, -, -⟩ := hstands.of_between
  · simp only [isClear, hat, he, Bool.or_eq_true, beq_iff_eq, List.all_eq_true] at hclear
    refine hclear.resolve_right fun hall => ?_
    have hne := hall _ hpending
    simp at hne
  · rw [h.answer_eq, hnone] at hanswer
    contradiction

/-- The receiver looks for the call of a response. -/
theorem Matched.look (h : Matched s) (hboth : Conversing p s messages i)
    (hunsent : ∀ id, .unsent id ∉ s.events) {response : Header}
    (hat : s.client.receiver = .matching response) (hclear : s.isClear = true)
    (hevents : s'.events = s.events ++ [.matched response]) (hhandled : s'.handled = s.handled)
    {messages' : List Message} {i' : Intake} (hafter : Conversing p s' messages' i') :
    Matched s' := by
  constructor
  · intro id seq k before after e hregistered hall hseq
    rw [hevents] at hregistered
    exact h.later (hregistered.of_keep rfl) (hhandled ▸ hall) hseq
  · intro id seq k e hregistered hfirst
    rw [hevents] at hregistered
    have hold := hregistered.of_keep rfl
    have hfound := hafter.read_prefix.2
    rw [hevents, headersRead_append, hhandled] at hfound
    obtain ⟨e₀, he₀, hheader⟩ : ∃ e₀, (responses s.handled)[(headersRead s.events).length]? =
        some e₀ ∧ e₀.2.header = response := by
      obtain ⟨more, hmore⟩ := hfound
      rw [← Option.map_eq_some_iff, ← List.getElem?_map, ← hmore, List.append_assoc,
        List.getElem?_append_right (Nat.le_refl _), Nat.sub_self]
      rfl
    have hgrown : (responses s.handled).take ((headersRead s.events).length + 1) =
        (responses s.handled).take (headersRead s.events).length ++ [e₀] := by
      rw [List.take_add_one, he₀, Option.toList_some]
    have hk : k ≤ ((responses s.handled).take (headersRead s.events).length).length := by
      rw [List.length_take, Nat.min_eq_left hboth.length_headersRead]
      exact hold.le
    rw [firstSince, hhandled, hevents, headersRead_append, List.length_append] at hfirst
    change List.find? _ (((responses s.handled).take ((headersRead s.events).length + 1)).drop k) =
      some e at hfirst
    rw [hgrown, List.drop_append_of_le_length hk, List.find?_append, Option.or_eq_some_iff]
      at hfirst
    obtain hearlier | ⟨hnone, hlast⟩ := hfirst
    · exact h.own hold hearlier
    · obtain ⟨hseq, rfl⟩ : e₀.2.header.seq = seq ∧ e₀ = e := by simpa using hlast
      subst hheader hseq
      exact hboth.own_of_clear hunsent hat hclear hold hnone he₀

/-- A request that is handled is handled after all responses that have been looked for. -/
theorem Matched.serve (h : Matched s) (hboth : Conversing p s messages i) {new : List Handled}
    (hevents : s'.events = s.events) (hhandled : s'.handled = s.handled ++ new) :
    Matched s' := by
  have hle := hboth.length_headersRead
  constructor
  · intro id seq k before after e hregistered hall hseq
    rw [hevents] at hregistered
    rw [hhandled] at hall
    have hk := Nat.le_trans hregistered.le hle
    obtain ⟨more, rfl, -⟩ | ⟨more, hold, hlast⟩ := List.append_eq_append_iff.mp hall
    · rw [responses_append, List.length_append]
      omega
    · cases more with
      | nil =>
          rw [List.append_nil] at hold
          exact hold ▸ hk
      | cons first more =>
          obtain ⟨rfl, -⟩ := List.cons.inj hlast
          exact h.later hregistered hold hseq
  · intro id seq k e hregistered hfirst
    rw [hevents] at hregistered
    rw [firstSince, hevents, hhandled, responses_append, List.take_append_of_le_length hle]
      at hfirst
    exact h.own hregistered hfirst

/-- What is known of the responses holds on, whoever goes on. -/
theorem Matched.step (h : Matched s) (hboth : Conversing p s messages i)
    (hunsent : ∀ id, .unsent id ∉ s.events) {messages' : List Message} {i' : Intake}
    (hafter : Conversing p s' messages' i') {move : Move}
    (hclear : move.isReceive = true → s.isClear = true) (hchange : Change s move s') :
    Matched s' := by
  cases hchange with
  | @client move client hstep =>
      obtain hnone | ⟨response, rfl, hat, hlook⟩ := headersRead_observe s.client move
      · exact h.keep hboth rfl rfl hafter.turns.records hnone
      · exact h.look hboth hunsent hat (hclear rfl) (by rw [hlook]) rfl hafter
  | serve hstep => exact h.serve hboth rfl rfl
  | _ => exact ⟨h.later, h.own⟩

/-- In a session in which nobody closes the client, responses answer the requests of the calls that
they are found for. -/
theorem Run.matched (hpre : Accepted p) {log : List Log.Entry} {order : Registry.Order}
    (run : Run (opened p log order) s) (hongoing : Ongoing s) : Matched s := by
  induction run with
  | start => exact matched_opened p log order
  | step run move hclear hstep ih =>
      have hchange := change_of_step hstep
      have hbefore := hongoing.of_change hchange
      obtain ⟨messages', i', hafter⟩ := (run.step move hclear hstep).conversing hpre hongoing
      obtain ⟨messages, i, hboth⟩ := run.conversing hpre hbefore
      exact (ih hbefore).step hboth (run.joined hpre hbefore).unsent hafter hclear hchange

end Matched

end RemoteCalls.Arithmetic.Session
