import RemoteCalls.Proofs.Client.Progress

/-!
# RemoteCalls.Proofs.Client.Responses

What becomes of a call is told by the octets of the peer.

The first response under a call's number that the receiver finds after the call
has been registered decides the call (`answer`, `outcome`); a call without any is
lost when the connection ends.  `Standing` says how far that has come for one
call, and `Outcomes` for all calls of a run whose requests have not failed.
-/

namespace RemoteCalls

/-- The calls that the receiver holds and that have not their outcome and their reply yet. -/
def Receiver.deciding : Receiver → List CallId
  | .skipping _ call => call.toList
  | .reply _ id => [id]
  | .terminating _ ids => ids
  | _ => []

/-- Whether the receiver reads the body behind this header for a call. -/
def Receiver.Attends (id : CallId) (header : Header) : Receiver → Prop
  | .skipping _ call => call = some id ∧ header.error ≠ []
  | .reply _ other => other = id ∧ header.error = []
  | _ => False

/-- Whether a task is still to register this call. -/
def Task.IsToRegister (id : CallId) : Task → Prop
  | .send other _ .entering => other = id
  | .send other _ .registering => other = id
  | _ => False

theorem Task.own_of_isToRegister {id : CallId} {task : Task} (h : task.IsToRegister id) :
    task.own = some id := by
  cases task with
  | send other waits phase =>
      cases phase with
      | entering => exact congrArg some h
      | registering => exact congrArg some h
      | _ => contradiction
  | close drops phase => contradiction

theorem Task.held_of_isToRegister {id : CallId} {task : Task} (h : task.IsToRegister id) :
    task.held = some id := by
  cases task with
  | send other waits phase =>
      cases phase with
      | entering => exact congrArg some h
      | registering => exact congrArg some h
      | _ => contradiction
  | close drops phase => contradiction

theorem Receiver.mem_held_of_deciding {place : Receiver} {id : CallId} (h : id ∈ place.deciding) :
    id ∈ place.held := by
  cases place <;> first | exact h | contradiction

/-- The outcome of a call, and its reply. -/
def Call.result {ρ : Type} (call : Call ρ) : Status × ρ := (call.error, call.reply)

namespace Client

open Board

variable {σ ρ : Type}

/-! ## What responses do -/

/-- The outcome of a call and its reply after a response to it. -/
def outcome (r : Request ρ) (response : Response) : Status × ρ :=
  if response.header.error ≠ [] then
    ({ code := .remoteError, message := response.header.error }, r.reply)
  else
    match response.body with
    | .error f =>
        ({ code := .connectionFailure, message := .ofText "reading body", details := f.message },
          r.reply)
    | .ok body =>
        match r.reader with
        | none => ({}, r.reply)
        | some read =>
            let (reply, verdict) := read r.reply (.ofBytes body)
            (if verdict = .accepted then {}
              else
                { code := .decodeFailure
                  message := .ofText "reading body"
                  details := .ofText "body decode failed" },
              reply)

/-- The response that decides a call which is registered under `seq` when `k` responses have been
looked for. -/
def answer (responses : List Response) (k : Nat) (seq : UInt64) : Option Response :=
  (responses.drop k).find? (·.header.seq == seq)

/-- What becomes of such a call in the end, if reading ends with `fault`. -/
def fate (r : Request ρ) (responses : List Response) (fault : Fault) (k : Nat) (seq : UInt64) :
    Status × ρ :=
  match answer responses k seq with
  | some response => outcome r response
  | none =>
      ({ code := .connectionFailure
         message := .ofText "connection has been shut down"
         details := fault.message },
        r.reply)

section Answer

variable {responses : List Response} {response first : Response} {k : Nat} {seq : UInt64}

/-- A call that has been answered is not answered again. -/
theorem answer_concat_of_some (h : answer responses k seq = some first) :
    answer (responses ++ [response]) k seq = some first := by
  rw [answer] at h ⊢
  rw [List.drop_append, List.find?_append, h]
  rfl

theorem answer_concat_of_eq (h : answer responses k seq = none) (hk : k ≤ responses.length)
    (hseq : response.header.seq = seq) : answer (responses ++ [response]) k seq = some response := by
  rw [answer] at h ⊢
  rw [List.drop_append_of_le_length hk, List.find?_append, h]
  simp [hseq]

theorem answer_concat_of_ne (h : answer responses k seq = none)
    (hne : k ≤ responses.length → response.header.seq ≠ seq) :
    answer (responses ++ [response]) k seq = none := by
  rw [answer] at h ⊢
  by_cases hk : k ≤ responses.length
  · rw [List.drop_append_of_le_length hk, List.find?_append, h]
    simp [hne hk]
  · rw [List.drop_eq_nil_of_le]
    · rfl
    · rw [List.length_append, List.length_singleton]
      omega

/-- Responses that have been looked for before do not answer. -/
theorem answer_of_length_le (h : responses.length ≤ k) : answer responses k seq = none := by
  rw [answer, List.drop_eq_nil_of_le h]
  rfl

end Answer

section Outcome

variable {r : Request ρ} {h : Header} {body : Bytes} {after : ρ} {entries : List Log.Entry}
  {fault : Option Fault}

/-- A call that failed at the peer has the outcome that the peer gives it. -/
theorem outcome_of_error (herror : h.error ≠ []) (body : Except Fault Bytes) :
    outcome r ⟨h, body⟩ = (remoteError h.error, r.reply) := if_pos herror

theorem outcome_of_fault (herror : h.error = []) (f : Fault) :
    outcome r ⟨h, .error f⟩ = (replyFailure .connectionFailure f, r.reply) :=
  if_neg (not_not_intro herror)

/-- What the receiver makes of a body for which nothing has gone wrong at the peer. -/
theorem outcome_of_ofFrame (herror : h.error = [])
    (hbody : BodyReader.ofFrame r.reader r.reply body = (after, entries, fault)) :
    outcome r ⟨h, .ok body⟩ = ((replyOutcome {} fault).1, after) := by
  simp only [outcome, herror, ne_eq, not_true, if_false]
  cases hreader : r.reader with
  | none =>
      simp only [BodyReader.ofFrame, hreader, Prod.mk.injEq] at hbody
      obtain ⟨rfl, -, rfl⟩ := hbody
      rfl
  | some read =>
      rcases hread : read r.reply (.ofBytes body) with ⟨reply, verdict⟩
      simp only [BodyReader.ofFrame, hreader, hread] at hbody
      cases verdict with
      | _ =>
          simp only [Verdict.fault, Prod.mk.injEq] at hbody
          obtain ⟨rfl, -, rfl⟩ := hbody
          simp [hread, replyOutcome, replyFailure, Fault.message]

end Outcome

/-! ## Registrations and responses -/

/-- A call has been registered under `seq` when `k` responses had been looked for. -/
def RegisteredAfter (events : List (Event ρ)) (id : CallId) (seq : UInt64) (k : Nat) : Prop :=
  ∃ before after, events = before ++ .registered id seq :: after ∧ (headersRead before).length = k

section RegisteredAfter

variable {events new : List (Event ρ)} {id other : CallId} {seq next : UInt64} {k : Nat}

theorem RegisteredAfter.mem (h : RegisteredAfter events id seq k) :
    (id, seq) ∈ registrations events := by
  obtain ⟨before, after, rfl, -⟩ := h
  simp [registrations]

/-- A call that has been registered was registered behind some of the responses. -/
theorem exists_registeredAfter (h : (id, seq) ∈ registrations events) :
    ∃ k, RegisteredAfter events id seq k := by
  obtain ⟨e, he, heq⟩ := List.mem_filterMap.mp h
  obtain ⟨before, after, rfl⟩ := List.append_of_mem he
  cases e with
  | registered id' seq' =>
      obtain ⟨rfl, rfl⟩ := Prod.mk.inj (Option.some.inj heq)
      exact ⟨_, before, after, rfl, rfl⟩
  | _ => contradiction

theorem RegisteredAfter.le (h : RegisteredAfter events id seq k) :
    k ≤ (headersRead events).length := by
  obtain ⟨before, after, rfl, rfl⟩ := h
  rw [headersRead_append, List.length_append]
  exact Nat.le_add_right ..

/-- A registration in a longer history is one of before, or a new one. -/
theorem RegisteredAfter.of_append (h : RegisteredAfter (events ++ new) id seq k) :
    RegisteredAfter events id seq k ∨ ∃ before after,
      new = before ++ .registered id seq :: after ∧
        (headersRead (events ++ before)).length = k := by
  obtain ⟨before, after, heq, hk⟩ := h
  obtain ⟨more, rfl, hnew⟩ | ⟨old, rfl, hold⟩ := List.append_eq_append_iff.mp heq
  · exact .inr ⟨more, after, hnew, hk⟩
  · cases old with
    | nil => exact .inr ⟨[], after, hold.symm, by simpa using hk⟩
    | cons e old =>
        obtain ⟨rfl, -⟩ := List.cons.inj hold
        exact .inl ⟨before, old, rfl, hk⟩

theorem RegisteredAfter.of_keep (h : RegisteredAfter (events ++ new) id seq k)
    (hnew : registrations new = []) : RegisteredAfter events id seq k := by
  refine h.of_append.resolve_right ?_
  rintro ⟨before, after, rfl, -⟩
  simp [registrations] at hnew

theorem RegisteredAfter.of_register
    (h : RegisteredAfter (events ++ [.registered other next]) id seq k) :
    RegisteredAfter events id seq k ∨
      id = other ∧ seq = next ∧ (headersRead events).length = k := by
  refine h.of_append.imp_right ?_
  rintro ⟨before, after, hnew, hk⟩
  cases before with
  | nil =>
      simp only [List.nil_append, List.cons.injEq, Event.registered.injEq] at hnew
      obtain ⟨⟨rfl, rfl⟩, -⟩ := hnew
      exact ⟨rfl, rfl, by simpa using hk⟩
  | cons e before => simp at hnew

end RegisteredAfter

/-! ## Where one call stands -/

/-- Where a call stands that has been registered under `seq` when `k` responses had been looked for,
and whose request has not failed. -/
inductive Standing (pending : List (UInt64 × CallId)) (place : Receiver) (i : Intake)
    (r : Request ρ) (id : CallId) (seq : UInt64) (k : Nat) (error : Status) (reply : ρ) : Prop where
  /-- It is in flight. -/
  | waiting (hnone : answer i.responses k seq = none)
      (hopened : ∀ h, i.opened = some h → k ≤ i.responses.length → h.seq ≠ seq)
      (hpending : (seq, id) ∈ pending) (herror : error = {}) (hreply : reply = r.reply)
  /-- The body of its response is being read. -/
  | held {h : Header} (hnone : answer i.responses k seq = none) (hopened : i.opened = some h)
      (hk : k ≤ i.responses.length) (hseq : h.seq = seq) (hplace : place.Attends id h)
      (hout : ∀ e ∈ pending, e.2 ≠ id)
      (herror : error = if h.error = [] then {} else remoteError h.error)
      (hreply : reply = r.reply)
  /-- Its response has been read as far as it can be. -/
  | answered {response : Response} (hanswer : answer i.responses k seq = some response)
      (hout : ∀ e ∈ pending, e.2 ≠ id) (hdone : id ∉ place.deciding)
      (houtcome : (error, reply) = outcome r response)
  /-- It has been given up, and is yet to be told so. -/
  | taken {f : Fault} {ids : List CallId} (hnone : answer i.responses k seq = none)
      (hfault : i.fault = some f) (hplace : place = .terminating f ids) (hmem : id ∈ ids)
      (hreply : reply = r.reply)
  | lost {f : Fault} (hnone : answer i.responses k seq = none) (hfault : i.fault = some f)
      (herror : error = connectionLost f) (hreply : reply = r.reply)

section Standing

variable {pending pending' : List (UInt64 × CallId)} {place place' : Receiver} {i i' : Intake}
  {r : Request ρ} {id : CallId} {seq : UInt64} {k : Nat} {error error' : Status} {reply reply' : ρ}

/-- A step of others, which leaves alone whether the call is in flight. -/
theorem Standing.keep (h : Standing pending place i r id seq k error reply)
    (hpending : ∀ e, e.2 = id → (e ∈ pending' ↔ e ∈ pending)) :
    Standing pending' place i r id seq k error reply := by
  have hstill (hout : ∀ e ∈ pending, e.2 ≠ id) : ∀ e ∈ pending', e.2 ≠ id :=
    fun e he heq => hout e ((hpending e heq).mp he) heq
  cases h with
  | waiting hnone hopened hmem herror hreply =>
      exact .waiting hnone hopened ((hpending _ rfl).mpr hmem) herror hreply
  | held hnone hopened hk hseq hplace hout herror hreply =>
      exact .held hnone hopened hk hseq hplace (hstill hout) herror hreply
  | answered hanswer hout hdone houtcome => exact .answered hanswer (hstill hout) hdone houtcome
  | taken hnone hfault hplace hmem hreply => exact .taken hnone hfault hplace hmem hreply
  | lost hnone hfault herror hreply => exact .lost hnone hfault herror hreply

/-- A step of the receiver in which no response is found or read. -/
theorem Standing.pass (h : Standing pending place i r id seq k error reply)
    (hresponses : i'.responses = i.responses) (hopened : i'.opened = i.opened)
    (hfault : ∀ f, i.fault = some f → i'.fault = some f)
    (hattends : ∀ header, place.Attends id header → place'.Attends id header)
    (hdeciding : ∀ other ∈ place'.deciding, other ∈ place.deciding)
    (htaken : ∀ f ids, place = .terminating f ids → ids = []) :
    Standing pending place' i' r id seq k error reply := by
  cases h with
  | waiting hnone hother hmem herror hreply =>
      exact .waiting (hresponses ▸ hnone) (hresponses ▸ hopened ▸ hother) hmem herror hreply
  | held hnone hheader hk hseq hplace hout herror hreply =>
      exact .held (hresponses ▸ hnone) (hopened ▸ hheader) (hresponses ▸ hk) hseq
        (hattends _ hplace) hout herror hreply
  | answered hanswer hout hdone houtcome =>
      exact .answered (hresponses ▸ hanswer) hout (fun hmem => hdone (hdeciding _ hmem)) houtcome
  | taken hnone hf hplace hmem hreply =>
      obtain rfl := htaken _ _ hplace
      contradiction
  | lost hnone hf herror hreply => exact .lost (hresponses ▸ hnone) (hfault _ hf) herror hreply

/-- What holds of a call between two responses: it is in flight, or it has been answered. -/
theorem Standing.of_between {messages : List Message}
    (h : Standing pending place (.reading messages none) r id seq k error reply) :
    (answer (messages.map Message.response) k seq = none ∧ (seq, id) ∈ pending ∧ error = {} ∧
      reply = r.reply) ∨
    ∃ response, answer (messages.map Message.response) k seq = some response ∧
      (∀ e ∈ pending, e.2 ≠ id) ∧ (error, reply) = outcome r response := by
  cases h with
  | waiting hnone _ hmem herror hreply => exact .inl ⟨hnone, hmem, herror, hreply⟩
  | answered hanswer hout _ houtcome => exact .inr ⟨_, hanswer, hout, houtcome⟩
  | held _ hopened => contradiction
  | taken _ hfault => contradiction
  | lost _ hfault => contradiction

/-- The body behind an open header has been read, or cannot be read: the response is complete. -/
theorem Standing.close {header : Header} {messages : List Message} {body : Except Fault Bytes}
    (h : Standing pending place (.reading messages (some header)) r id seq k error reply)
    (hresponses : i'.responses = messages.map Message.response ++ [⟨header, body⟩])
    (hopened : i'.opened = none) (hdeciding : place'.deciding = [])
    (hapart : (seq, id) ∈ pending → id ∉ place.deciding)
    (hheld : place.Attends id header →
      error = (if header.error = [] then {} else remoteError header.error) → reply = r.reply →
      (error', reply') = outcome r ⟨header, body⟩)
    (hothers : id ∉ place.deciding → error' = error ∧ reply' = reply) :
    Standing pending place' i' r id seq k error' reply' := by
  cases h with
  | waiting hnone hother hmem herror hreply =>
      obtain ⟨rfl, rfl⟩ := hothers (hapart hmem)
      refine .waiting ?_ (by simp [hopened]) hmem herror hreply
      rw [hresponses]
      refine answer_concat_of_ne hnone fun hk => hother header rfl hk
  | held hnone hheader hk hseq hplace hout herror hreply =>
      obtain rfl := Option.some.inj hheader
      refine .answered ?_ hout (by simp [hdeciding]) (hheld hplace herror hreply)
      rw [hresponses]
      exact answer_concat_of_eq hnone hk hseq
  | answered hanswer hout hdone houtcome =>
      obtain ⟨rfl, rfl⟩ := hothers hdone
      refine .answered ?_ hout (by simp [hdeciding]) houtcome
      rw [hresponses]
      exact answer_concat_of_some hanswer
  | taken _ hfault => contradiction
  | lost _ hfault => contradiction

/-- What becomes of a call when the receiver is gone. -/
theorem Standing.eq_fate {messages : List Message} {cut : Option Header} {fault : Fault}
    (h : Standing [] .exited (.ended messages cut fault) r id seq k error reply) :
    (error, reply) = fate r (Intake.ended messages cut fault).responses fault k seq := by
  cases h with
  | waiting _ _ hpending => contradiction
  | held _ hopened => contradiction
  | answered hanswer _ _ houtcome => rw [fate, hanswer, houtcome]
  | taken _ _ hplace => contradiction
  | lost hnone hfault herror hreply =>
      obtain rfl := Option.some.inj hfault
      rw [fate, hnone, herror, hreply]
      rfl

end Standing

/-! ## All calls -/

/-- Where all calls stand whose requests have not failed, and those that are yet to be
registered. -/
structure Outcomes (events : List (Event ρ)) (c : Client σ ρ) (i : Intake) : Prop where
  fresh : ∀ id r, (id, r) ∈ requests events → (∃ task ∈ c.tasks, task.IsToRegister id) →
    (c.board.call? id).map Call.result = some ({}, r.reply)
  standing : ∀ id r seq k, (id, r) ∈ requests events → RegisteredAfter events id seq k →
    .unsent id ∉ events → ∃ error reply, (c.board.call? id).map Call.result = some (error, reply) ∧
      Standing c.board.registry.pending c.receiver i r id seq k error reply

theorem outcomes_start (codec : Codec σ) (p : Preamble) (log : List Log.Entry)
    (order : Registry.Order) (i : Intake) :
    Outcomes [] (start codec p log order : Client σ ρ) i where
  fresh := by simp [requests]
  standing := by simp [requests]

/-- A call that is yet to be registered, or has been registered and its request has not failed. -/
def Live (events : List (Event ρ)) (c : Client σ ρ) (id : CallId) : Prop :=
  (∃ task ∈ c.tasks, task.IsToRegister id) ∨
    id ∈ (registrations events).map (·.1) ∧ .unsent id ∉ events

section Outcomes

variable {events new : List (Event ρ)} {c c' : Client σ ρ} {i i' : Intake}

/-- What is done to the calls on a board that leaves their outcomes and replies. -/
theorem result_of_map {b b' : Board ρ} (h : b'.calls.map Call.result = b.calls.map Call.result)
    (id : CallId) : (b'.call? id).map Call.result = (b.call? id).map Call.result := by
  simpa [call?] using congrArg (·[id]?) h

theorem result_modifyCall_of_ne {b : Board ρ} {id other : CallId} (hne : id ≠ other)
    (f : Call ρ → Call ρ) :
    ((b.modifyCall id f).call? other).map Call.result = (b.call? other).map Call.result := by
  rw [call?_modifyCall_of_ne b hne]

theorem result_setError {b : Board ρ} {id : CallId} {error : Status} {reply : ρ}
    (hcall : (b.call? id).map Call.result = some (error, reply)) (status : Status) :
    ((b.setError id status).call? id).map Call.result = some (status, reply) := by
  obtain ⟨call, hfound, heq⟩ := Option.map_eq_some_iff.mp hcall
  obtain ⟨-, rfl⟩ := Prod.mk.inj heq
  rw [setError, call?_modifyCall_self hfound]
  rfl

/-- A step of a thread that registers no call. -/
theorem Outcomes.keep (h : Outcomes events c i)
    (hnew : requests new = [] ∧ registrations new = []) (hreceiver : c'.receiver = c.receiver)
    (hfresh : ∀ id, (∃ task ∈ c'.tasks, task.IsToRegister id) →
      ∃ task ∈ c.tasks, task.IsToRegister id)
    (hcalls : ∀ id, Live (events ++ new) c' id →
      (c'.board.call? id).map Call.result = (c.board.call? id).map Call.result)
    (hpending : ∀ e : UInt64 × CallId, Live (events ++ new) c' e.2 →
      (e ∈ c'.board.registry.pending ↔ e ∈ c.board.registry.pending)) :
    Outcomes (events ++ new) c' i := by
  have hsame : requests (events ++ new) = requests events := by
    rw [requests_append, hnew.1, List.append_nil]
  constructor
  · intro id r hr htask
    rw [hcalls id (.inl htask)]
    exact h.fresh id r (hsame ▸ hr) (hfresh id htask)
  · intro id r seq k hr hregistered hsent
    have hlive : Live (events ++ new) c' id :=
      .inr ⟨List.mem_map_of_mem hregistered.mem, hsent⟩
    have hbefore : .unsent id ∉ events := fun hmem => hsent (List.mem_append_left _ hmem)
    obtain ⟨error, reply, hcall, hstanding⟩ :=
      h.standing id r seq k (hsame ▸ hr) (hregistered.of_keep hnew.2) hbefore
    refine ⟨error, reply, (hcalls id hlive).trans hcall, ?_⟩
    rw [hreceiver]
    exact hstanding.keep fun e he => hpending e (he ▸ hlive)

/-- A step of the receiver. -/
theorem Outcomes.turn (h : Outcomes events c i)
    (hnew : requests new = [] ∧ registrations new = []) (htasks : c'.tasks = c.tasks)
    (hfresh : ∀ id, (∃ task ∈ c.tasks, task.IsToRegister id) →
      (c'.board.call? id).map Call.result = (c.board.call? id).map Call.result)
    (hstanding : ∀ id r seq k error reply, (id, r) ∈ requests events →
      RegisteredAfter events id seq k →
      (c.board.call? id).map Call.result = some (error, reply) →
      Standing c.board.registry.pending c.receiver i r id seq k error reply →
      ∃ error' reply', (c'.board.call? id).map Call.result = some (error', reply') ∧
        Standing c'.board.registry.pending c'.receiver i' r id seq k error' reply') :
    Outcomes (events ++ new) c' i' := by
  have hsame : requests (events ++ new) = requests events := by
    rw [requests_append, hnew.1, List.append_nil]
  constructor
  · intro id r hr htask
    rw [htasks] at htask
    rw [hfresh id htask]
    exact h.fresh id r (hsame ▸ hr) htask
  · intro id r seq k hr hregistered hsent
    have hold := hregistered.of_keep hnew.2
    have hbefore : .unsent id ∉ events := fun hmem => hsent (List.mem_append_left _ hmem)
    obtain ⟨error, reply, hcall, hstands⟩ := h.standing id r seq k (hsame ▸ hr) hold hbefore
    exact hstanding id r seq k error reply (hsame ▸ hr) hold hcall hstands

/-- A step of the receiver in which no response is found or read. -/
theorem Outcomes.pass (h : Outcomes events c i) {place : Receiver} (hat : c.receiver = place)
    (hnew : requests new = [] ∧ registrations new = []) (htasks : c'.tasks = c.tasks)
    (hcalls : c'.board.calls.map Call.result = c.board.calls.map Call.result)
    (hpending : c'.board.registry.pending = c.board.registry.pending)
    (hresponses : i'.responses = i.responses) (hopened : i'.opened = i.opened)
    (hfault : ∀ f, i.fault = some f → i'.fault = some f)
    (hattends : ∀ id header, place.Attends id header → c'.receiver.Attends id header)
    (hdeciding : ∀ other ∈ c'.receiver.deciding, other ∈ place.deciding)
    (htaken : ∀ f ids, place = .terminating f ids → ids = []) :
    Outcomes (events ++ new) c' i' := by
  refine h.turn hnew htasks (fun id _ => result_of_map hcalls id) ?_
  intro id r seq k error reply _ _ hcall hstands
  refine ⟨error, reply, (result_of_map hcalls id).trans hcall, ?_⟩
  rw [hat] at hstands
  rw [hpending]
  exact hstands.pass hresponses hopened hfault (hattends id) hdeciding htaken

/-! ### Steps of threads -/

/-- A call that its own thread is past registering is not registered by another. -/
theorem Turns.not_toRegister (h : c.Turns events) {t : TaskId} {old next : Task} {id : CallId}
    (htask : c.tasks[t]? = some old) (hown : old.own = some id) (hnext : ¬ next.IsToRegister id) :
    ¬ ∃ task ∈ c.tasks.set t next, task.IsToRegister id := by
  rintro ⟨task, hmem, htrue⟩
  obtain rfl | ⟨t', hne, htask'⟩ := eq_or_getElem?_of_mem_set hmem
  · exact hnext htrue
  · exact h.own_ne htask hown htask' (Task.own_of_isToRegister htrue) hne rfl

/-- A call whose outcome is set by its own thread is not live any more. -/
theorem call?_setError_of_live {b : Board ρ} {own : CallId} {status : Status} {id : CallId}
    (hnot : ¬ Live events c own) (hlive : Live events c id) :
    (b.setError own status).call? id = b.call? id := by
  have hne : own ≠ id := fun heq => hnot (heq ▸ hlive)
  exact call?_modifyCall_of_ne b hne _

theorem result_finish {b b' : Board ρ} {id : CallId} (h : b.finish id = .moved b') :
    b'.calls.map Call.result = b.calls.map Call.result := by
  obtain ⟨call, queue, q, q', -, -, -, -, -, rfl⟩ := finish_moved h
  exact map_calls_modifyCall (f := fun call => { call with finished := true }) (fun _ => rfl) b id

/-- A call that is registered is in flight, and no response has been looked for since. -/
theorem Outcomes.register (h : Outcomes events c i) (hturns : c.Turns events)
    (hheaders : i.responses.length ≤ (headersRead events).length)
    (hopened : ∀ header, i.opened = some header → i.responses.length < (headersRead events).length)
    {t : TaskId} {id : CallId} {waits : Bool}
    (htask : c.tasks[t]? = some (.send id waits .registering)) :
    Outcomes (events ++ [.registered id c.board.registry.nextSeq])
      (setTask { c with board := c.board.registered id } t (.send id waits .addressing)) i := by
  have hmem := List.mem_of_getElem? htask
  have hunregistered : id ∉ (registrations events).map (·.1) := hturns.ready _ hmem
  have hcalls : (c.board.registered id).calls.map Call.result = c.board.calls.map Call.result :=
    map_calls_modifyCall (f := fun call => { call with seq := c.board.registry.nextSeq })
      (fun _ => rfl) c.board id
  have hsame : requests (events ++ [Event.registered id c.board.registry.nextSeq]) =
      requests events := by
    simp [requests]
  constructor
  · intro other r hr hother
    rw [hsame] at hr
    refine (result_of_map hcalls other).trans (h.fresh other r hr ?_)
    exact exists_task_of_set htask False.elim hother
  · intro other r seq k hr hregistered hsent
    rw [hsame] at hr
    have hbefore : .unsent other ∉ events := fun hmem => hsent (List.mem_append_left _ hmem)
    obtain hold | ⟨rfl, rfl, rfl⟩ := hregistered.of_register
    · obtain ⟨error, reply, hcall, hstanding⟩ := h.standing other r seq k hr hold hbefore
      refine ⟨error, reply, (result_of_map hcalls other).trans hcall, hstanding.keep ?_⟩
      rintro e rfl
      have hne : e.2 ≠ id := fun heq => hunregistered (heq ▸ List.mem_map_of_mem hold.mem)
      simp only [setTask_board, registry_registered, Registry.filed, List.mem_append,
        List.mem_singleton]
      refine ⟨fun hin => hin.resolve_right ?_, .inl⟩
      rintro rfl
      exact hne rfl
    · have hcall := h.fresh other r hr ⟨_, hmem, rfl⟩
      refine ⟨{}, r.reply, (result_of_map hcalls other).trans hcall, ?_⟩
      refine .waiting (answer_of_length_le hheaders) (fun header hheader hk => ?_) ?_ rfl rfl
      · exact absurd hk (Nat.not_le.mpr (hopened header hheader))
      · simp [Registry.filed]

theorem Outcomes.send [ByteStream σ] (h : Outcomes events c i) (hturns : c.Turns events)
    (hnumbers : c.board.registry.Numbered (registrations events).length)
    (hheaders : i.responses.length ≤ (headersRead events).length)
    (hopened : ∀ header, i.opened = some header → i.responses.length < (headersRead events).length)
    {t : TaskId} {id : CallId} {call : Call ρ} {waits : Bool} {phase : SendPhase}
    (htask : c.tasks[t]? = some (.send id waits phase))
    (hchange : SendChange c t id call waits phase new c') : Outcomes (events ++ new) c' i := by
  have hready := hturns.ready _ (List.mem_of_getElem? htask)
  cases hchange with
  | enter =>
      exact h.keep ⟨rfl, rfl⟩ rfl (fun _ => exists_task_of_set htask fun hsame => hsame)
        (fun _ _ => rfl)
        fun _ _ => Iff.rfl
  | register => exact h.register hturns hheaders hopened htask
  | refuse =>
      have hdone : ¬ ∃ task ∈ c.tasks.set t (.send id waits (.finishing id)), task.IsToRegister id :=
        hturns.not_toRegister htask rfl not_false
      refine h.keep ⟨rfl, rfl⟩ rfl (fun _ => exists_task_of_set htask False.elim)
        (fun other hlive => ?_) fun _ _ => Iff.rfl
      refine congrArg _ (call?_setError_of_live ?_ hlive)
      rintro (hfresh | ⟨hregistered, -⟩)
      · exact hdone hfresh
      · exact hready (List.append_nil events ▸ hregistered)
  | @withdraw f other hfind =>
      have hdone : ¬ ∃ task ∈ c.tasks.set t (.send id waits (.finishing other)),
          task.IsToRegister id :=
        hturns.not_toRegister htask rfl not_false
      obtain ⟨hunsent, call', hcurrent, hheader⟩ := hready
      obtain rfl : other = id := by
        rw [hheader] at hfind
        exact hturns.records.find?_current hnumbers hcurrent hfind
      have hnot : ¬ Live (events ++ [])
          (setTask (note
            { c with board := (c.board.remove c.header.seq).2.setError other (sendFailure f) }
            [sendWarning c.header f]) t (.send other waits (.finishing other))) other := by
        rintro (hfresh | ⟨-, hsent⟩)
        · exact hdone hfresh
        · exact hsent (List.mem_append_left _ hunsent)
      refine h.keep ⟨rfl, rfl⟩ rfl (fun _ => exists_task_of_set htask False.elim)
        (fun id hlive => congrArg _ (call?_setError_of_live hnot hlive)) fun e hlive => ?_
      refine ⟨fun hmem => (List.mem_filter.mp hmem).1, fun hmem => List.mem_filter.mpr ⟨hmem, ?_⟩⟩
      refine bne_iff_ne.mpr fun hseq => hnot ?_
      have hsame := hnumbers.find?_eq_some_iff.mpr hmem
      rw [hseq, hfind] at hsame
      exact Option.some.inj hsame ▸ hlive
  | finish hfinish =>
      refine h.keep ⟨rfl, rfl⟩ rfl (fun _ => exists_task_of_set htask False.elim)
        (fun id _ => result_of_map (result_finish hfinish) id) fun e _ => ?_
      rw [setTask_board, registry_finish hfinish]
  | leave =>
      refine h.keep ⟨rfl, rfl⟩ rfl (fun _ => exists_task_of_set htask fun hnext => ?_)
        (fun _ _ => rfl) fun _ _ => Iff.rfl
      cases waits <;> contradiction
  | collect hqueue hpop =>
      obtain ⟨q, q', -, -, rfl⟩ := pop?_eq_some hpop
      exact h.keep ⟨rfl, rfl⟩ rfl (fun _ => exists_task_of_set htask False.elim) (fun _ _ => rfl)
        fun _ _ => Iff.rfl
  | _ =>
      exact h.keep ⟨rfl, rfl⟩ rfl (fun _ => exists_task_of_set htask False.elim) (fun _ _ => rfl)
        fun _ _ => Iff.rfl

/-! ### Steps of the receiver -/

/-- No call is held twice. -/
theorem Custody.nodup_holdings (h : c.Custody events) : c.holdings.Nodup := by
  refine List.nodup_iff_count.mpr fun id => ?_
  have hledger := h.ledger id
  split at hledger <;> omega

/-- The receiver does not hold what the registry holds. -/
theorem Custody.notMem_held_of_pending (h : c.Custody events) {e : UInt64 × CallId}
    (he : e ∈ c.board.registry.pending) : e.2 ∉ c.receiver.held := by
  have hnodup := h.nodup_holdings
  rw [holdings, List.nodup_append, List.nodup_append] at hnodup
  exact fun hmem => hnodup.2.1.2.2 _ hmem _ (List.mem_map_of_mem he) rfl

/-- A call that is yet to be registered is held by its own thread. -/
theorem Custody.notMem_of_toRegister (h : c.Custody events) {id : CallId}
    (htask : ∃ task ∈ c.tasks, task.IsToRegister id) :
    id ∉ c.receiver.held ∧ ∀ e ∈ c.board.registry.pending, e.2 ≠ id := by
  obtain ⟨task, hmem, hregister⟩ := htask
  have hheld : id ∈ c.tasks.filterMap Task.held :=
    List.mem_filterMap.mpr ⟨task, hmem, Task.held_of_isToRegister hregister⟩
  have hnodup := h.nodup_holdings
  rw [holdings, List.nodup_append] at hnodup
  refine ⟨fun hother => hnodup.2.2 _ hheld _ (List.mem_append_left _ hother) rfl, ?_⟩
  rintro e he rfl
  exact hnodup.2.2 _ hheld _ (List.mem_append_right _ (List.mem_map_of_mem he)) rfl

/-- A call that is registered under two numbers is registered under one. -/
theorem Records.seq_unique {b : Board ρ} (h : Records events b) {id : CallId} {seq seq' : UInt64}
    (hseq : (id, seq) ∈ registrations events) (hseq' : (id, seq') ∈ registrations events) :
    seq = seq' := by
  have hknown := h.known _ hseq
  rw [h.known _ hseq'] at hknown
  exact (Option.some.inj hknown).symm

/-- The header of a response that belongs to no call is open, and nothing else is different. -/
theorem Outcomes.stray {header : Header} {messages : List Message}
    (h : Outcomes events c (.reading messages none))
    (hnumbers : c.board.registry.Numbered (registrations events).length)
    (hat : c.receiver = .matching header) (hfind : c.board.registry.find? header.seq = none)
    (htasks : c'.tasks = c.tasks) (hboard : c'.board = c.board)
    (hplace : c'.receiver.deciding = []) :
    Outcomes (events ++ [.matched header]) c' (.reading messages (some header)) := by
  refine h.turn ⟨rfl, rfl⟩ htasks (fun id _ => by rw [hboard]) ?_
  intro id r seq k error reply _ _ hcall hstands
  refine ⟨error, reply, by rw [hboard, hcall], ?_⟩
  rw [hat] at hstands
  rw [hboard]
  obtain ⟨hnone, hmem, herror, hreply⟩ | ⟨response, hanswer, hout, houtcome⟩ :=
    hstands.of_between
  · refine .waiting hnone (fun other hother _ hseq => ?_) hmem herror hreply
    obtain rfl := Option.some.inj hother
    have hfound := hnumbers.find?_eq_some_iff.mpr hmem
    rw [← hseq, hfind] at hfound
    contradiction
  · exact .answered hanswer hout (by simp [hplace]) houtcome

/-- The call of a response is held by the receiver, and the body of the response is to be read. -/
theorem Outcomes.found {header : Header} {messages : List Message}
    (h : Outcomes events c (.reading messages none)) (hcustody : c.Custody events)
    (hrecords : Records events c.board)
    (hlength : (headersRead events).length = messages.length)
    (hat : c.receiver = .matching header) {found : CallId}
    (hfind : c.board.registry.find? header.seq = some found) (htasks : c'.tasks = c.tasks)
    (hregistry : c'.board.registry = (c.board.registry.remove header.seq).2)
    (hplace : c'.receiver.Attends found header) (hdeciding : c'.receiver.deciding = [found])
    (hfound : ∀ error reply, (c.board.call? found).map Call.result = some (error, reply) →
      (c'.board.call? found).map Call.result =
        some (if header.error = [] then error else remoteError header.error, reply))
    (hothers : ∀ id, found ≠ id →
      (c'.board.call? id).map Call.result = (c.board.call? id).map Call.result) :
    Outcomes (events ++ [.matched header]) c' (.reading messages (some header)) := by
  have hpending := hcustody.numbered.find?_eq_some_iff.mp hfind
  refine h.turn ⟨rfl, rfl⟩ htasks (fun id hfresh => ?_) ?_
  · exact hothers id ((hcustody.notMem_of_toRegister hfresh).2 _ hpending)
  intro id r seq k error reply _ hregistered hcall hstands
  rw [hat] at hstands
  rw [hregistry]
  obtain ⟨hnone, hmem, rfl, rfl⟩ | ⟨response, hanswer, hout, houtcome⟩ := hstands.of_between
  · by_cases hsame : found = id
    · subst hsame
      obtain rfl := hrecords.seq_unique hregistered.mem (hrecords.inFlight _ hpending)
      refine ⟨_, _, hfound _ _ hcall, .held hnone rfl ?_ rfl hplace ?_ rfl rfl⟩
      · have hk := hregistered.le
        rw [hlength] at hk
        simpa [Intake.responses] using hk
      · rintro e he rfl
        obtain ⟨hin, hne⟩ := List.mem_filter.mp he
        exact bne_iff_ne.mp hne (hrecords.seq_unique (hrecords.inFlight _ hin) hregistered.mem)
    · have hother : header.seq ≠ seq := by
        rintro rfl
        rw [hcustody.numbered.find?_eq_some_iff.mpr hmem] at hfind
        exact hsame (Option.some.inj hfind).symm
      refine ⟨_, _, (hothers id hsame).trans hcall, .waiting hnone ?_ ?_ rfl rfl⟩
      · rintro other hopened -
        exact Option.some.inj hopened ▸ hother
      · exact List.mem_filter.mpr ⟨hmem, bne_iff_ne.mpr hother.symm⟩
  · have hne : found ≠ id := hout _ hpending
    refine ⟨_, _, (hothers id hne).trans hcall, .answered hanswer ?_ ?_ houtcome⟩
    · exact fun e he => hout e (List.mem_filter.mp he).1
    · rw [hdeciding, List.mem_singleton]
      exact hne.symm

/-- A response is complete, and the call that it belongs to has its outcome. -/
theorem Outcomes.close {header : Header} {messages : List Message} {body : Except Fault Bytes}
    (h : Outcomes events c (.reading messages (some header))) (hcustody : c.Custody events)
    (hnew : requests new = [] ∧ registrations new = []) (htasks : c'.tasks = c.tasks)
    (hregistry : c'.board.registry = c.board.registry)
    (hlength : c'.board.calls.length = c.board.calls.length)
    (hresponses : i'.responses = messages.map Message.response ++ [⟨header, body⟩])
    (hopened : i'.opened = none) (hdeciding : c'.receiver.deciding = [])
    (hheld : ∀ id r, c.receiver.Attends id header → (id, r) ∈ requests events →
      (c.board.call? id).map Call.result =
        some (if header.error = [] then {} else remoteError header.error, r.reply) →
      (c'.board.call? id).map Call.result = some (outcome r ⟨header, body⟩))
    (hothers : ∀ id, id ∉ c.receiver.deciding →
      (c'.board.call? id).map Call.result = (c.board.call? id).map Call.result) :
    Outcomes (events ++ new) c' i' := by
  refine h.turn hnew htasks (fun id hfresh => ?_) ?_
  · refine hothers id fun hmem => ?_
    exact (hcustody.notMem_of_toRegister hfresh).1 (Receiver.mem_held_of_deciding hmem)
  intro id r seq k error reply hr _ hcall hstands
  obtain ⟨call, hcall', -⟩ := Option.map_eq_some_iff.mp hcall
  have hlt : id < c'.board.calls.length := hlength ▸ (List.getElem?_eq_some_iff.mp hcall').1
  have hafter : (c'.board.call? id).map Call.result = some (c'.board.calls[id]).result := by
    rw [call?, List.getElem?_eq_getElem hlt, Option.map_some]
  refine ⟨_, _, hafter, ?_⟩
  rw [hregistry]
  refine hstands.close hresponses hopened hdeciding (fun hmem hin => ?_) ?_ fun hout => ?_
  · exact hcustody.notMem_held_of_pending hmem (Receiver.mem_held_of_deciding hin)
  · rintro hattends rfl rfl
    have hclosed := hheld id r hattends hr hcall
    rw [hafter] at hclosed
    exact Option.some.inj hclosed
  · have hsame := hothers id hout
    rw [hafter, hcall] at hsame
    exact Prod.mk.inj (Option.some.inj hsame)

/-- A body that no reply is read from is complete, or cannot be read any further. -/
theorem Outcomes.skip {header : Header} {messages : List Message} {body : Except Fault Bytes}
    {stage : Frame.Stage} {call : Option CallId}
    (h : Outcomes events c (.reading messages (some header))) (hcustody : c.Custody events)
    (hat : c.receiver = .skipping stage call) (hnew : requests new = [] ∧ registrations new = [])
    (htasks : c'.tasks = c.tasks) (hboard : c'.board = c.board)
    (hresponses : i'.responses = messages.map Message.response ++ [⟨header, body⟩])
    (hopened : i'.opened = none) (hdeciding : c'.receiver.deciding = []) :
    Outcomes (events ++ new) c' i' := by
  refine h.close hcustody hnew htasks (by rw [hboard]) (by rw [hboard]) hresponses hopened
    hdeciding (fun id r hattends _ hcall => ?_) fun id _ => by rw [hboard]
  rw [hat] at hattends
  obtain ⟨-, herror⟩ := hattends
  rw [if_neg herror] at hcall
  rw [outcome_of_error herror, hboard]
  exact hcall

/-- The body that a call reads its reply from is complete, or cannot be read any further. -/
theorem Outcomes.reply {header : Header} {messages : List Message} {body : Except Fault Bytes}
    {stage : Frame.Stage} {id : CallId} {f : Call ρ → Call ρ}
    (h : Outcomes events c (.reading messages (some header))) (hcustody : c.Custody events)
    (hat : c.receiver = .reply stage id) (hnew : requests new = [] ∧ registrations new = [])
    (htasks : c'.tasks = c.tasks) (hboard : c'.board = c.board.modifyCall id f)
    (hresponses : i'.responses = messages.map Message.response ++ [⟨header, body⟩])
    (hopened : i'.opened = none) (hdeciding : c'.receiver.deciding = [])
    (hreplied : ∀ r, (id, r) ∈ requests events → header.error = [] →
      (c.board.call? id).map Call.result = some ({}, r.reply) →
      (c'.board.call? id).map Call.result = some (outcome r ⟨header, body⟩)) :
    Outcomes (events ++ new) c' i' := by
  refine h.close hcustody hnew htasks (by rw [hboard]; rfl) ?_ hresponses hopened hdeciding ?_ ?_
  · rw [hboard, length_calls_modifyCall]
  · intro other r hattends hr hcall
    rw [hat] at hattends
    obtain ⟨rfl, herror⟩ := hattends
    rw [if_pos herror] at hcall
    exact hreplied r hr herror hcall
  · intro other hnot
    rw [hat] at hnot
    rw [hboard]
    exact result_modifyCall_of_ne (Ne.symm (List.ne_of_not_mem_cons hnot)) _

/-- All calls in flight are given up. -/
theorem Outcomes.take (h : Outcomes events c i) {f : Fault} (hat : c.receiver = .taking f)
    (hfault : i.fault = some f) :
    Outcomes (events ++ [])
      { c with
        board := (c.board.takeAll c.order).2
        receiver := .terminating f (c.board.takeAll c.order).1 } i := by
  refine h.turn ⟨rfl, rfl⟩ rfl (fun _ _ => rfl) ?_
  intro id r seq k error reply _ _ hcall hstands
  refine ⟨error, reply, hcall, ?_⟩
  rw [hat] at hstands
  have hempty : ∀ e ∈ (c.board.takeAll c.order).2.registry.pending, e.2 ≠ id := by
    simp [Registry.emptied]
  cases hstands with
  | waiting hnone _ hmem _ hreply =>
      refine .taken hnone hfault rfl ?_ hreply
      exact mem_takeAll.mpr (List.mem_map_of_mem hmem)
  | held _ _ _ _ hattends => contradiction
  | answered hanswer hout _ houtcome =>
      refine .answered hanswer hempty (fun hmem => ?_) houtcome
      rw [Receiver.deciding, mem_takeAll, List.mem_map] at hmem
      obtain ⟨e, he, rfl⟩ := hmem
      exact hout e he rfl
  | taken _ _ hplace => contradiction
  | lost hnone hf herror hreply => exact .lost hnone hf herror hreply

/-- A call that has been given up is told so. -/
theorem Outcomes.terminate (h : Outcomes events c i) (hcustody : c.Custody events) {f : Fault}
    {lost : CallId} {ids : List CallId} {b : Board ρ}
    (hat : c.receiver = .terminating f (lost :: ids)) (hfault : i.fault = some f)
    (hfinish : c.board.finishWith (connectionLost f) lost = .moved b) :
    Outcomes (events ++ [.finished lost]) { c with board := b, receiver := .terminating f ids } i := by
  rw [finishWith] at hfinish
  have hregistry : b.registry = c.board.registry :=
    (registry_finish hfinish).trans (registry_setError ..)
  have hafter (id : CallId) : (b.call? id).map Call.result =
      ((c.board.setError lost (connectionLost f)).call? id).map Call.result :=
    result_of_map (result_finish hfinish) id
  have hothers (id : CallId) (hne : lost ≠ id) :
      (b.call? id).map Call.result = (c.board.call? id).map Call.result :=
    (hafter id).trans (result_modifyCall_of_ne hne _)
  have hlost (error : Status) (reply : ρ)
      (hcall : (c.board.call? lost).map Call.result = some (error, reply)) :
      (b.call? lost).map Call.result = some (connectionLost f, reply) :=
    (hafter lost).trans (result_setError hcall _)
  have hheld : lost ∈ c.receiver.held := hat ▸ List.mem_cons_self
  refine h.turn ⟨rfl, rfl⟩ rfl (fun id hfresh => hothers id ?_) ?_
  · rintro rfl
    exact (hcustody.notMem_of_toRegister hfresh).1 hheld
  intro id r seq k error reply _ _ hcall hstands
  rw [hat] at hstands
  have hempty : c.board.registry.pending = [] :=
    hcustody.emptied (hcustody.ended (hat ▸ rfl))
  have hout : ∀ e ∈ b.registry.pending, e.2 ≠ id := by simp [hregistry, hempty]
  cases hstands with
  | waiting _ _ hmem => simp [hempty] at hmem
  | held _ _ _ _ hattends => contradiction
  | answered hanswer _ hdone houtcome =>
      have hne : lost ≠ id := Ne.symm (List.ne_of_not_mem_cons hdone)
      exact ⟨_, _, (hothers id hne).trans hcall,
        .answered hanswer hout (List.not_mem_of_not_mem_cons hdone) houtcome⟩
  | taken hnone _ hplace hmem hreply =>
      obtain ⟨rfl, rfl⟩ := Receiver.terminating.inj hplace
      by_cases hsame : lost = id
      · subst hsame
        exact ⟨_, _, hlost _ _ hcall, .lost hnone hfault rfl hreply⟩
      · have hrest : id ∈ ids := (List.mem_cons.mp hmem).resolve_left (Ne.symm hsame)
        exact ⟨_, _, (hothers id hsame).trans hcall, .taken hnone hfault rfl hrest hreply⟩
  | lost hnone hf herror hreply =>
      by_cases hsame : lost = id
      · subst hsame
        exact ⟨_, _, hlost _ _ hcall, .lost hnone hfault rfl hreply⟩
      · exact ⟨_, _, (hothers id hsame).trans hcall, .lost hnone hf herror hreply⟩

end Outcomes

/-! ## Every step -/

section Steps

variable [ByteStream σ] {ending : Fault} {d : Delivery σ ending} {limit : Nat} {bytes : Bytes}
  {events new : List (Event ρ)} {c c' : Client σ ρ} {i : Intake}

/-- While a header is matched, all headers before it belong to messages. -/
theorem Reads.length_headers {messages : List Message}
    (h : c.Reads d limit bytes events (.reading messages none)) :
    (headersRead events).length = messages.length := by
  simpa [Intake.responses, Intake.opened] using congrArg List.length h.headers

/-- A receiver that has ended knows its fault. -/
theorem Reads.fault_eq (h : c.Reads d limit bytes events i) {f : Fault}
    (hends : ∀ g, c.receiver.EndsWith g → g = f) (hheader : c.receiver.headerStage = none)
    (hbody : c.receiver.bodyStage = none) (hmatching : ∀ header, c.receiver ≠ .matching header) :
    i.fault = some f := by
  have hreading := h.reading
  generalize c.receiver = place at hreading hends hheader hbody hmatching
  cases hreading with
  | header hplace => simp [hheader] at hplace
  | matching => exact absurd rfl (hmatching _)
  | body hplace => simp [hbody] at hplace
  | ended hplace => exact congrArg some (hends _ hplace)

theorem Outcomes.receive (h : Outcomes events c i) (hreads : c.Reads d limit bytes events i)
    (hending : ending ≠ .bodyDecodeFailed) (hcustody : c.Custody events)
    (hrecords : Records events c.board) (hchange : ReceiverChange c c.receiver new c') :
    ∃ i', c'.Reads d limit bytes (events ++ new) i' ∧ Outcomes (events ++ new) c' i' := by
  generalize hat : c.receiver = place at hchange
  have hstage : c.receiver.bodyStage = place.bodyStage := congrArg _ hat
  cases hchange with
  | headerWait hread =>
      refine ⟨i, hreads.headerWait hat hread, ?_⟩
      exact h.pass hat ⟨rfl, rfl⟩ rfl rfl rfl rfl rfl (fun _ hf => hf) (fun _ _ => False.elim)
        (fun _ hmem => hmem) (by simp)
  | headerFail hread =>
      obtain ⟨messages, rfl, hended⟩ := hreads.headerFail hat hread
      refine ⟨_, hended, h.pass hat ⟨rfl, rfl⟩ rfl rfl rfl ?_ rfl ?_ (fun _ _ => False.elim)
        (fun _ hmem => hmem) (by simp)⟩
      · simp [Intake.responses]
      · simp [Intake.fault]
  | headerInvalid hread hheader =>
      obtain ⟨messages, rfl, hended⟩ := hreads.headerInvalid hat hread hheader
      refine ⟨_, hended, h.pass hat ⟨rfl, rfl⟩ rfl rfl rfl ?_ rfl ?_ (fun _ _ => False.elim)
        (fun _ hmem => hmem) (by simp)⟩
      · simp [Intake.responses]
      · simp [Intake.fault]
  | header hread hheader =>
      refine ⟨i, hreads.header hat hread hheader, ?_⟩
      exact h.pass hat ⟨rfl, rfl⟩ rfl rfl rfl rfl rfl (fun _ hf => hf) (fun _ _ => False.elim)
        (fun _ hmem => hmem) (by simp)
  | stray hfind =>
      obtain ⟨messages, rfl⟩ := hreads.of_matching hat
      exact ⟨_, hreads.matched hat rfl rfl rfl, h.stray hcustody.numbered hat hfind rfl rfl rfl⟩
  | @matchError header id hfind herror =>
      obtain ⟨messages, rfl⟩ := hreads.of_matching hat
      refine ⟨_, hreads.matched hat rfl rfl rfl, h.found hcustody hrecords hreads.length_headers hat
        hfind rfl rfl ⟨rfl, herror⟩ rfl (fun error reply hcall => ?_) fun other hne => ?_⟩
      · rw [if_neg herror]
        exact result_setError hcall _
      · exact result_modifyCall_of_ne hne _
  | matchReply hfind herror =>
      obtain ⟨messages, rfl⟩ := hreads.of_matching hat
      refine ⟨_, hreads.matched hat rfl rfl rfl, h.found hcustody hrecords hreads.length_headers hat
        hfind rfl rfl ⟨rfl, herror⟩ rfl (fun error reply hcall => ?_) fun _ _ => rfl⟩
      rw [if_pos herror]
      exact hcall
  | skipWait hread =>
      obtain ⟨messages, header, rfl⟩ := hreads.reading.of_body hstage
      refine ⟨_, hreads.bodyWait hstage hread rfl rfl rfl, ?_⟩
      exact h.pass hat ⟨rfl, rfl⟩ rfl rfl rfl rfl rfl (fun _ hf => hf) (fun _ _ hheld => hheld)
        (fun _ hmem => hmem) (by simp)
  | replyWait hread =>
      obtain ⟨messages, header, rfl⟩ := hreads.reading.of_body hstage
      refine ⟨_, hreads.bodyWait hstage hread rfl rfl rfl, ?_⟩
      exact h.pass hat ⟨rfl, rfl⟩ rfl rfl rfl rfl rfl (fun _ hf => hf) (fun _ _ hheld => hheld)
        (fun _ hmem => hmem) (by simp)
  | @skipFail stage codec call f hread =>
      obtain ⟨messages, header, rfl⟩ := hreads.reading.of_body hstage
      refine ⟨_, hreads.bodyFail hstage hread rfl ?_ rfl, ?_⟩
      · cases call <;> rfl
      · refine h.skip hcustody hat ⟨rfl, rfl⟩ rfl rfl rfl rfl ?_
        cases call <;> rfl
  | @skip stage codec call body hread =>
      obtain ⟨messages, header, rfl⟩ := hreads.reading.of_body hstage
      refine ⟨_, hreads.body hstage hread rfl ?_ rfl, ?_⟩
      · cases call <;> rfl
      · refine h.skip hcustody hat ⟨rfl, rfl⟩ rfl rfl (List.map_append ..) rfl ?_
        cases call <;> rfl
  | @replyFail stage codec id call f hread hcall =>
      obtain ⟨messages, header, rfl⟩ := hreads.reading.of_body hstage
      have hne : f ≠ .bodyDecodeFailed := hreads.bodyFault_ne hending hstage hread
      rw [replyOutcome_of_ne hne]
      refine ⟨_, hreads.bodyFail hstage hread rfl rfl rfl, ?_⟩
      refine h.reply hcustody hat ⟨rfl, rfl⟩ rfl rfl rfl rfl rfl fun r _ herror hresult => ?_
      rw [outcome_of_fault herror]
      exact result_setError hresult _
  | @reply stage codec id call body after entries fault hread hcall hbody =>
      obtain ⟨messages, header, rfl⟩ := hreads.reading.of_body hstage
      refine ⟨_, hreads.body hstage hread rfl ?_ rfl, ?_⟩
      · rw [replyOutcome_of_ofFrame hbody]
        rfl
      · refine h.reply hcustody hat ⟨rfl, rfl⟩ rfl rfl (List.map_append ..) rfl rfl
          fun r hr herror hresult => ?_
        have hasked := hrecords.asked _ hr
        rw [hcall, Option.map_some, Option.some.injEq] at hresult hasked
        obtain ⟨hcalm, hreply⟩ := Prod.mk.inj hresult
        obtain ⟨-, -, -, hreader⟩ : _ ∧ _ ∧ _ ∧ call.reader = r.reader := by
          simpa [Call.asked, Request.asked] using hasked
        rw [hreader, hreply] at hbody
        rw [outcome_of_ofFrame herror hbody, ← hcalm]
        exact congrArg (Option.map Call.result) (call?_modifyCall_self hcall _)
  | @finish id fault b hfinish =>
      refine ⟨i, hreads.pass ⟨rfl, rfl⟩ rfl rfl (by simp [hat]) (by rw [hat]; rfl) ?_ ?_, ?_⟩
      · cases fault <;> simp [hat, Receiver.headerStage, afterCall]
      · cases fault <;> simp [hat, Receiver.EndsWith, afterCall]
      · refine h.pass hat ⟨rfl, rfl⟩ rfl (result_finish hfinish) (by rw [registry_finish hfinish]) rfl
          rfl (fun _ hf => hf) (fun _ _ => False.elim) ?_ (by simp)
        cases fault <;> exact fun _ hmem => hmem
  | take =>
      have hfault := hreads.fault_eq (by rw [hat]; exact fun _ => Eq.symm) (by rw [hat]; rfl) (by rw [hat]; rfl)
        (by simp [hat])
      refine ⟨i, ?_, h.take hat hfault⟩
      exact hreads.pass ⟨rfl, rfl⟩ rfl rfl (by simp [hat]) (by rw [hat]; rfl)
        (by simp [hat, Receiver.headerStage]) (by simp [hat, Receiver.EndsWith])
  | terminate hfinish =>
      have hfault := hreads.fault_eq (by rw [hat]; exact fun _ => Eq.symm) (by rw [hat]; rfl) (by rw [hat]; rfl)
        (by simp [hat])
      refine ⟨i, ?_, h.terminate hcustody hat hfault hfinish⟩
      exact hreads.pass ⟨rfl, rfl⟩ rfl rfl (by simp [hat]) (by rw [hat]; rfl)
        (by simp [hat, Receiver.headerStage]) (by simp [hat, Receiver.EndsWith])
  | terminated =>
      refine ⟨i, hreads.pass ⟨rfl, rfl⟩ rfl rfl (by simp [hat]) (by rw [hat]; rfl) ?_ ?_, ?_⟩
      · simp [hat, Receiver.headerStage]
      · simp [hat, Receiver.EndsWith]
      · exact h.pass hat ⟨rfl, rfl⟩ rfl rfl rfl rfl rfl (fun _ hf => hf) (fun _ _ => False.elim)
          (fun _ hmem => hmem) (by simp)
  | _ =>
      refine ⟨i, hreads.pass ⟨rfl, rfl⟩ rfl rfl (by simp [hat]) (by rw [hat]; rfl) ?_ ?_, ?_⟩
      · simp [hat, noteReceiver, Receiver.headerStage]
      · simp [hat, noteReceiver, Receiver.EndsWith]
      · exact h.pass hat ⟨rfl, rfl⟩ rfl rfl rfl rfl rfl (fun _ hf => hf) (fun _ _ => False.elim)
          (fun _ hmem => hmem) (by simp)

omit [ByteStream σ] in
/-- A call that is begun is yet to be registered. -/
theorem Outcomes.begin (h : Outcomes events c i) (hcustody : c.Custody events)
    (hrecords : Records events c.board) {queues : List CompletionQueue} (r : Request ρ)
    (queue : QueueId) (waits : Bool) :
    Outcomes (events ++ [.begun c.board.calls.length r])
      (beginSend { c with board := { c.board with queues } } r queue waits).1 i := by
  have hrequests : requests (events ++ [Event.begun c.board.calls.length r]) =
      requests events ++ [(c.board.calls.length, r)] := by
    rw [requests_append]
    rfl
  have hlt {id : CallId} {r' : Request ρ} (hr : (id, r') ∈ requests events) :
      id < c.board.calls.length := by
    have hmem := List.mem_map_of_mem (f := Prod.fst) hr
    rw [hcustody.begun] at hmem
    exact List.mem_range.mp hmem
  have hold {id : CallId} (hid : id < c.board.calls.length) :
      ((c.board.calls ++ [r.toCall queue])[id]?).map Call.result =
        (c.board.call? id).map Call.result := by
    rw [List.getElem?_append_left hid, call?]
  constructor
  · intro id r' hr htask
    rw [hrequests, List.mem_append, List.mem_singleton] at hr
    obtain hbefore | hlast := hr
    · obtain ⟨task, hmem, hregister⟩ := htask
      refine (hold (hlt hbefore)).trans (h.fresh id r' hbefore ⟨task, ?_, hregister⟩)
      refine (List.mem_append.mp hmem).resolve_right fun hnew => ?_
      obtain rfl := List.mem_singleton.mp hnew
      exact Nat.ne_of_gt (hlt hbefore) hregister
    · obtain ⟨rfl, rfl⟩ := Prod.mk.inj hlast
      simp [beginSend, addCall, call?, Request.toCall, Call.result]
  · intro id r' seq k hr hregistered hsent
    have hbefore : .unsent id ∉ events := fun hmem => hsent (List.mem_append_left _ hmem)
    have hregistered := hregistered.of_keep rfl
    obtain ⟨call, hcall, -⟩ := Option.map_eq_some_iff.mp (hrecords.known _ hregistered.mem)
    have hid : id < c.board.calls.length := (List.getElem?_eq_some_iff.mp hcall).1
    rw [hrequests, List.mem_append, List.mem_singleton] at hr
    have hr' := hr.resolve_right fun hlast => Nat.ne_of_lt hid (Prod.mk.inj hlast).1
    obtain ⟨error, reply, hresult, hstands⟩ := h.standing id r' seq k hr' hregistered hbefore
    exact ⟨error, reply, (hold hid).trans hresult, hstands⟩

/-- A step in a run in which nobody closes the client. -/
theorem Outcomes.change (h : Outcomes events c i) (hreads : c.Reads d limit bytes events i)
    (hending : ending ≠ .bodyDecodeFailed) (hcustody : c.Custody events) (hturns : c.Turns events)
    (hopen : .closing ∉ events ++ new) (hchange : Change c new c') :
    ∃ i', c'.Reads d limit bytes (events ++ new) i' ∧ Outcomes (events ++ new) c' i' := by
  cases hchange with
  | begin =>
      refine ⟨i, hreads.keep ⟨rfl, rfl⟩ rfl hreads.reading ?_,
        h.begin hcustody hturns.records _ _ _⟩
      exact List.forall_mem_append.mpr ⟨hreads.sends, List.forall_mem_singleton.mpr rfl⟩
  | send htask hcall hsend =>
      have hlength := congrArg List.length hreads.headers
      rw [List.length_append, List.length_map] at hlength
      refine ⟨i, hreads.send hsend, h.send hturns hcustody.numbered ?_ ?_ htask hsend⟩
      · omega
      · intro header hheader
        rw [hheader, Option.toList_some, List.length_singleton] at hlength
        omega
  | closing htask hclose =>
      have hsends := hreads.sends _ (List.mem_of_getElem? htask)
      contradiction
  | receive hreceive => exact h.receive hreads hending hcustody hturns.records hreceive
  | collect hpop =>
      obtain ⟨q, q', -, -, rfl⟩ := pop?_eq_some hpop
      exact ⟨i, hreads.keep ⟨rfl, rfl⟩ rfl hreads.reading hreads.sends,
        h.keep ⟨rfl, rfl⟩ rfl (fun _ htask => htask) (fun _ _ => rfl) fun _ _ => Iff.rfl⟩
  | close drops => simp at hopen
  | _ =>
      exact ⟨i, hreads.keep ⟨rfl, rfl⟩ rfl hreads.reading hreads.sends,
        h.keep ⟨rfl, rfl⟩ rfl (fun _ htask => htask) (fun _ _ => rfl) fun _ _ => Iff.rfl⟩

end Steps

/-! ## Runs -/

section Runs

variable [ByteStream σ] {ending : Fault} {d : Delivery σ ending} {bytes : Bytes}
  {outside : σ → σ → Prop} {codec : Codec σ} {p : Preamble} {log : List Log.Entry}
  {order : Registry.Order} {events : List (Event ρ)} {c : Client σ ρ}

/-- In every run, responses are read off the octets of the peer and decide the calls they belong
to. -/
theorem Run.outcomes (hending : ending ≠ .bodyDecodeFailed)
    (houtside : ∀ s s' left, outside s s' → d.Holds s left → d.Holds s' left)
    (hholds : d.Holds codec.stream bytes)
    (run : Run outside (Client.start codec p log order) events c)
    (hfew : (registrations events).length < Registry.seqLimit) (hopen : .closing ∉ events) :
    ∃ i, c.Reads d codec.limit bytes events i ∧ Outcomes events c i := by
  induction run with
  | start => exact ⟨_, reads_start hholds p log order, outcomes_start codec p log order _⟩
  | step run move hstep ih =>
      have hbefore := few_of_append hfew
      have hcustody := run.custody hbefore
      obtain ⟨i, hreads, h⟩ := ih hbefore fun hmem => hopen (List.mem_append_left _ hmem)
      exact h.change hreads hending hcustody (run.turns hbefore) hopen
        (change_of_step hcustody.numbered hcustody.readsReply hstep)
  | outside _ stream hout ih =>
      obtain ⟨i, hreads, h⟩ := ih hfew hopen
      refine ⟨i, ⟨hreads.bounded, ?_, hreads.fits, hreads.headers, hreads.bodies, hreads.sends⟩,
        ⟨h.fresh, h.standing⟩⟩
      exact hreads.reading.restream fun left => houtside _ _ left hout

omit [ByteStream σ] in
/-- A call whose request has not failed and that neither the receiver nor the registry holds has been
finished. -/
theorem Custody.finished_of_released (h : c.Custody events) (hturns : c.Turns events) {id : CallId}
    {seq : UInt64} (hregistered : (id, seq) ∈ registrations events) (hsent : .unsent id ∉ events)
    (hreceiver : id ∉ c.receiver.held) (hpending : ∀ e ∈ c.board.registry.pending, e.2 ≠ id) :
    (finishes events).count id = 1 ∧
      ∃ call, c.board.call? id = some call ∧ call.finished = true := by
  obtain ⟨call, hcall, -⟩ := Option.map_eq_some_iff.mp (hturns.records.known _ hregistered)
  have hthread : id ∉ c.tasks.filterMap Task.held := by
    intro hmem
    obtain ⟨task, htask, hheld⟩ := List.mem_filterMap.mp hmem
    have hready := hturns.ready task htask
    have hin : id ∈ (registrations events).map (·.1) := List.mem_map_of_mem hregistered
    cases task with
    | close drops phase => contradiction
    | send own waits phase =>
        cases phase with
        | entering =>
            obtain rfl := Option.some.inj hheld
            exact hready hin
        | registering =>
            obtain rfl := Option.some.inj hheld
            exact hready hin
        | finishing other =>
            obtain rfl := Option.some.inj hheld
            obtain ⟨rfl, hunregistered | hunsent⟩ := hready
            · exact hunregistered hin
            · exact hsent hunsent
        | _ => contradiction
  have hnobody : id ∉ c.holdings := by
    rw [holdings, List.mem_append, List.mem_append]
    rintro (htask | hheld | hmem)
    · exact hthread htask
    · exact hreceiver hheld
    · obtain ⟨e, he, rfl⟩ := List.mem_map.mp hmem
      exact hpending e he rfl
  have hledger := h.ledger id
  rw [List.count_eq_zero.mpr hnobody, Nat.zero_add,
    if_pos (List.getElem?_eq_some_iff.mp hcall).1] at hledger
  refine ⟨hledger, call, hcall, (h.calls id call hcall).2.mpr (List.count_pos_iff.mp ?_)⟩
  omega

omit [ByteStream σ] in
/-- When the receiver is gone, a call whose request has not failed has been finished. -/
theorem Custody.finished_of_exited (h : c.Custody events) (hturns : c.Turns events)
    (hexited : c.receiver = .exited) {id : CallId} {seq : UInt64}
    (hregistered : (id, seq) ∈ registrations events) (hsent : .unsent id ∉ events) :
    (finishes events).count id = 1 ∧
      ∃ call, c.board.call? id = some call ∧ call.finished = true := by
  have hempty : c.board.registry.pending = [] := h.emptied (h.ended (by rw [hexited]; rfl))
  refine h.finished_of_released hturns hregistered hsent ?_ (by simp [hempty])
  simp [hexited, Receiver.held]

/-- A response under a number that no call in flight has leaves all calls as they are. -/
theorem step_stray {c c' : Client σ ρ} {response : Header} (hat : c.receiver = .matching response)
    (hnone : ∀ e ∈ c.board.registry.pending, e.1 ≠ response.seq)
    (hstep : c.step .receive = .moved c') :
    c'.board = c.board ∧ c'.receiver = .skipping .size none := by
  have hfind : c.board.registry.find? response.seq = none := by
    rw [Registry.find?, List.lookup_eq_none_iff]
    exact fun e he => by simpa using (hnone e he).symm
  simp only [step, stepReceiver, hat, onResponse, remove_of_find?_eq_none hfind,
    Turn.moved.injEq] at hstep
  subst hstep
  exact ⟨rfl, rfl⟩

/-- A body that nobody reads leaves all calls as they are. -/
theorem step_skipping {c c' : Client σ ρ} {stage : Frame.Stage}
    (hat : c.receiver = .skipping stage none) (hstep : c.step .receive = .moved c') :
    c'.board = c.board := by
  simp only [step, stepReceiver, hat] at hstep
  obtain ⟨reached, codec, -, -, rfl⟩ | ⟨codec, result, -, rfl⟩ := stepFrame_moved hstep
  · rfl
  · rfl

/-- A receiver that goes on to read has octets before it. -/
theorem Reading.left {limit : Nat} {stream : σ} {place : Receiver} {i : Intake}
    (h : Reading d limit bytes stream place i) (hreading : place.isReading = true) :
    ∃ left, d.Holds stream left ∧ place.stage.Valid limit := by
  cases h with
  | @header _ stage _ left hplace hstage hleft =>
      have hsame : place.stage = stage := by
        cases place with
        | header other => exact Option.some.inj hplace
        | finishing id fault => cases fault <;> first | exact Option.some.inj hplace | contradiction
        | _ => contradiction
      exact ⟨left, hleft, hsame ▸ hstage⟩
  | matching _ _ hleft => exact ⟨_, hleft, Frame.Stage.valid_size _⟩
  | @body _ stage _ _ left hplace _ _ hstage hleft =>
      have hsame : place.stage = stage := by
        cases place <;> first | exact Option.some.inj hplace | contradiction
      exact ⟨left, hleft, hsame ▸ hstage⟩
  | ended hplace =>
      cases place with
      | finishing id fault =>
          obtain rfl := hplace
          contradiction
      | _ => contradiction

/-- Once all octets have arrived, only a thread that holds the send lock or a queue without room
keeps the receiver from coming to its end. -/
theorem Reads.unhindered {limit : Nat} {i : Intake} (h : c.Reads d limit bytes events i)
    (hturns : c.Turns events) (hroom : c.board.Roomy) (harrived : d.Arrived c.codec.stream)
    (hlock : ∀ t, c.lock ≠ some (.task t)) : ∃ n, c.Unhindered d n := by
  have hfree := hturns.lock_eq_none hlock
  cases hreading : c.receiver.isReading with
  | false => exact ⟨_, hroom, hfree, 0, rfl, by simp [hreading]⟩
  | true =>
      obtain ⟨left, hleft, hstage⟩ := h.reading.left hreading
      exact ⟨_, hroom, hfree, _, rfl, fun _ =>
        ⟨left, hleft, harrived, h.bounded ▸ hstage, rfl⟩⟩

/-- **The octets of the peer decide every call.**  A client whose connection gives certain octets
and then ends reads the messages at their front, each of them once and in order, and no more.  A
registered call whose request has not failed gets the outcome of the first of them under its number
since its registration; if there is none, it is lost.  Other messages change no call. -/
theorem responses_decide_calls (hending : ending ≠ .bodyDecodeFailed)
    (houtside : ∀ s s' left, outside s s' → d.Holds s left → d.Holds s' left)
    (hholds : d.Holds codec.stream bytes)
    (run : Run outside (Client.start codec p log order) events c)
    (hfew : (registrations events).length < Registry.seqLimit) (hopen : .closing ∉ events) :
    (c.board.Roomy → d.Arrived c.codec.stream → (∀ t, c.lock ≠ some (.task t)) →
      ∃ steps new c', c.trace (List.replicate steps .receive) = some (new, c') ∧
        c'.receiver = .exited) ∧
    (∀ response c', c.receiver = .matching response →
      (∀ e ∈ c.board.registry.pending, e.1 ≠ response.seq) → c.step .receive = .moved c' →
      c'.board = c.board ∧ c'.receiver = .skipping .size none) ∧
    (∀ stage c', c.receiver = .skipping stage none → c.step .receive = .moved c' →
      c'.board = c.board) ∧
    (c.receiver = .exited → ∃ messages rest cut fault,
      bytes = messages.flatMap Message.encode ++ rest ∧
      (∀ m ∈ messages, m.Fits codec.limit) ∧
      (∀ (m : Message) more, m.Fits codec.limit → rest ≠ m.encode ++ more) ∧
      Message.Ends codec.limit ending rest cut fault ∧
      headersRead events = messages.map (·.header) ++ cut.toList ∧
      bodiesRead events = messages.map (·.body) ∧
      ∀ id r seq k, (id, r) ∈ requests events → RegisteredAfter events id seq k →
        .unsent id ∉ events → (finishes events).count id = 1 ∧
          ∃ call, c.board.call? id = some call ∧ call.finished = true ∧
            (call.error, call.reply) =
              fate r (Intake.ended messages cut fault).responses fault k seq) := by
  have hcustody := run.custody hfew
  have hturns := run.turns hfew
  obtain ⟨i, hreads, houtcomes⟩ := run.outcomes hending houtside hholds hfew hopen
  refine ⟨fun hroom harrived hlock => ?_, fun response c' hat hnone hstep => step_stray hat hnone hstep,
    fun stage c' hat hstep => step_skipping hat hstep, fun hexited => ?_⟩
  · obtain ⟨n, hgoes⟩ := hreads.unhindered hturns hroom harrived hlock
    exact run.exits hending hfew hgoes
  · obtain ⟨messages, rest, cut, fault, rfl, hbytes, hends⟩ : ∃ messages rest cut fault,
        i = .ended messages cut fault ∧ bytes = messages.flatMap Message.encode ++ rest ∧
          Message.Ends codec.limit ending rest cut fault := by
      have hreading := hexited ▸ hreads.reading
      cases hreading with
      | ended _ hbytes hends => exact ⟨_, _, _, _, rfl, hbytes, hends⟩
      | _ => contradiction
    refine ⟨messages, rest, cut, fault, hbytes, hreads.fits, fun m more hm => hends.ne_encode hm more,
      hends, ?_, hreads.bodies, fun id r seq k hr hregistered hsent => ?_⟩
    · rw [hreads.headers]
      simp [Intake.responses, Intake.opened, Message.response, Function.comp_def]
    · obtain ⟨honce, call, hcall, hfinished⟩ :=
        hcustody.finished_of_exited hturns hexited hregistered.mem hsent
      obtain ⟨error, reply, hresult, hstands⟩ :=
        houtcomes.standing id r seq k hr hregistered hsent
      rw [hcall, Option.map_some, Option.some.injEq] at hresult
      refine ⟨honce, call, hcall, hfinished, ?_⟩
      have hempty : c.board.registry.pending = [] :=
        hcustody.emptied (hcustody.ended (by rw [hexited]; rfl))
      rw [hexited, hempty] at hstands
      exact hresult.trans hstands.eq_fate

end Runs

/-- The second of two calls fails at the peer, a response belongs to no call, and the connection
ends in the middle of the next one. -/
theorem responses_decide_calls_two_calls :
    ∃ (octets : Bytes) (events : List (Event Unit)) (c : Client MemoryStream Unit)
      (messages : List Message) (rest : Bytes),
      octets = Message.encode ⟨{ seq := 2, error := [110] }, []⟩ ++
        (Message.encode ⟨{ seq := 9 }, [5]⟩ ++ [7]) ∧
      Run (fun _ _ => False) (start { stream := { incoming := octets, ended := true } } {} [])
        events c ∧
      c.receiver = .exited ∧
      c.board.calls.map (·.error) = [connectionLost .connectionClosed, remoteError [110]] ∧
      octets = messages.flatMap Message.encode ++ rest ∧ messages.length = 2 := by
  generalize hoctets : Message.encode ⟨{ seq := 2, error := [110] }, []⟩ ++
    (Message.encode ⟨{ seq := 9 }, [5]⟩ ++ [7]) = octets
  have hfacts : ((start { stream := { incoming := octets, ended := true } } {} [] :
        Client MemoryStream Unit).trace
      (.go { reply := () } none :: List.replicate 5 (.task 0) ++
        .go { reply := () } none :: List.replicate 5 (.task 1) ++
        List.replicate 14 .receive)).map
      (fun last => (registrations last.1, last.1.any (· matches .closing), last.2.receiver,
        last.2.board.calls.map (·.error), (bodiesRead last.1).length)) =
      some ([(0, 1), (1, 2)], false, .exited,
        [connectionLost .connectionClosed, remoteError [110]], 2) := by
    subst hoctets
    decide +kernel
  obtain ⟨⟨events, c⟩, htrace, heq⟩ := Option.map_eq_some_iff.mp hfacts
  simp only [Prod.mk.injEq] at heq
  obtain ⟨htwo, hopen, hexited, hlost, hbodies⟩ := heq
  have run : Run (fun _ _ => False) _ ([] ++ events) c := Run.start.trace htrace
  rw [List.nil_append] at run
  have hfew : (registrations events).length < Registry.seqLimit := by
    rw [htwo]
    decide
  have hnever : .closing ∉ events := by
    intro hmem
    rw [List.any_eq_true.mpr ⟨_, hmem, rfl⟩] at hopen
    exact Bool.noConfusion hopen
  have hholds : (MemoryStream.delivery .connectionClosed).Holds
      { incoming := octets, ended := true } octets := ⟨rfl, rfl, rfl, rfl, rfl⟩
  obtain ⟨-, -, -, hend⟩ := responses_decide_calls (by decide)
    (fun _ _ _ hfalse => hfalse.elim) hholds run hfew hnever
  obtain ⟨messages, rest, cut, fault, hall, -, -, -, -, hread, -⟩ := hend hexited
  refine ⟨octets, events, c, messages, rest, rfl, run, hexited, hlost, hall, ?_⟩
  rw [← hbodies, hread, List.length_map]

end Client

end RemoteCalls
