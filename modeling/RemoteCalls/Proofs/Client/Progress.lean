import RemoteCalls.Proofs.Client.Intake

/-!
# RemoteCalls.Proofs.Client.Progress

The receiver comes to its end.

Every response takes octets from the connection, and every call that the end of
the connection finishes is one less to finish; `Receiver.stepsLeft` counts both.
A receiver has to wait only for octets, for room in a queue or for the send lock,
so without any of these each of its steps brings it closer to its end.
-/

namespace RemoteCalls

/-! ## Room -/

namespace Board

variable {ρ : Type} {b : Board ρ}

/-- How many calls are still to be delivered to a queue. -/
def awaiting (b : Board ρ) (queue : QueueId) : Nat :=
  b.calls.countP fun call => call.queue == some queue && !call.finished

/-- Queues have room for all calls that are still to be delivered to them. -/
def Roomy (b : Board ρ) : Prop :=
  ∀ id call, b.call? id = some call → call.finished = false →
    ∃ queue q, call.queue = some queue ∧ b.queue? queue = some q ∧
      q.size + b.awaiting queue ≤ q.capacity

/-- A call that has been delivered is not awaited any more. -/
theorem awaiting_delivered {id : CallId} {call : Call ρ} {queue : QueueId}
    (hcall : b.call? id = some call) (hfinished : call.finished = false)
    (hqueue : call.queue = some queue) (q : CompletionQueue) (other : QueueId) :
    (b.delivered id queue q).awaiting other + (if queue = other then 1 else 0) =
      b.awaiting other := by
  obtain ⟨hlt, rfl⟩ := List.getElem?_eq_some_iff.mp hcall
  have hsplit : b.calls = b.calls.take id ++ b.calls[id] :: b.calls.drop (id + 1) := by
    rw [List.getElem_cons_drop, List.take_append_drop]
  have hleft : (b.delivered id queue q).calls = b.calls.take id ++
      { b.calls[id] with finished := true } :: b.calls.drop (id + 1) :=
    List.modify_eq_take_cons_drop hlt
  have hbefore : b.awaiting other = (b.calls.take id).countP (fun call =>
      call.queue == some other && !call.finished) + ((b.calls.drop (id + 1)).countP (fun call =>
      call.queue == some other && !call.finished) + if queue = other then 1 else 0) := by
    conv_lhs => rw [awaiting, hsplit]
    rw [List.countP_append, List.countP_cons, hfinished, hqueue]
    simp
  rw [hbefore, awaiting, hleft, List.countP_append, List.countP_cons]
  simp only [Bool.not_true, Bool.and_false, Bool.false_eq_true, if_false]
  omega

/-- An unfinished call can be finished if queues have room, and they have room afterwards. -/
theorem finish_of_roomy (h : b.Roomy) {id : CallId} {call : Call ρ}
    (hcall : b.call? id = some call) (hfinished : call.finished = false) :
    ∃ b', b.finish id = .moved b' ∧ b'.Roomy := by
  obtain ⟨queue, q, hqueue, hq, hroom⟩ := h id call hcall hfinished
  have hone := awaiting_delivered hcall hfinished hqueue q queue
  rw [if_pos rfl] at hone
  have hpush : q.push? id = some { q with items := q.items ++ [id] } := by
    rw [CompletionQueue.push?, if_pos]
    simp only [CompletionQueue.hasRoom, decide_eq_true_eq]
    omega
  refine ⟨b.delivered id queue { q with items := q.items ++ [id] }, ?_, ?_⟩
  · simp only [finish, delivery, hcall, hfinished, hqueue, Bool.false_eq_true, if_false, hq,
      Option.bind_some, hpush]
  · intro other call' hcall' hfinished'
    rw [call?_delivered] at hcall'
    split at hcall'
    case isTrue heq =>
      obtain ⟨before, -, rfl⟩ := Option.map_eq_some_iff.mp hcall'
      contradiction
    case isFalse hne =>
      obtain ⟨queue', q', hqueue', hq', hroom'⟩ := h other call' hcall' hfinished'
      have hleft := awaiting_delivered hcall hfinished hqueue
        { q with items := q.items ++ [id] } queue'
      have hlt : queue < b.queues.length := (List.getElem?_eq_some_iff.mp hq).1
      by_cases hsame : queue = queue'
      · subst hsame
        obtain rfl := Option.some.inj (hq.symm.trans hq')
        refine ⟨queue, _, hqueue', List.getElem?_set_self hlt, ?_⟩
        rw [if_pos rfl] at hleft
        simp only [CompletionQueue.size, List.length_append, List.length_singleton] at hroom' ⊢
        omega
      · refine ⟨queue', q', hqueue', (List.getElem?_set_ne hsame).trans hq', ?_⟩
        rw [if_neg hsame] at hleft
        omega

/-- How many calls are awaited depends only on which calls are finished and where they are
delivered. -/
theorem awaiting_congr {b' : Board ρ}
    (hcalls : b'.calls.map Call.standing = b.calls.map Call.standing) (queue : QueueId) :
    b'.awaiting queue = b.awaiting queue := by
  have hcount (calls : List (Call ρ)) :
      calls.countP (fun call => call.queue == some queue && !call.finished) =
        (calls.map Call.standing).countP (fun s => s.1 == some queue && !s.2) := by
    rw [List.countP_map]
    rfl
  rw [awaiting, awaiting, hcount, hcount, hcalls]

/-- Room depends only on which calls are finished and where they are delivered. -/
theorem Roomy.congr {b' : Board ρ} (h : b.Roomy)
    (hcalls : b'.calls.map Call.standing = b.calls.map Call.standing)
    (hqueues : b'.queues = b.queues) : b'.Roomy := by
  intro id call hcall hfinished
  have hstanding := congrArg (·[id]?) hcalls
  rw [call?] at hcall
  simp only [List.getElem?_map, hcall, Option.map_some] at hstanding
  obtain ⟨before, hbefore, heq⟩ := Option.map_eq_some_iff.mp hstanding.symm
  obtain ⟨hqueue, hdone⟩ := Prod.mk.inj heq
  obtain ⟨queue, q, hmine, hq, hroom⟩ := h id before hbefore (hdone.trans hfinished)
  refine ⟨queue, q, hqueue.symm.trans hmine, ?_, ?_⟩
  · rw [queue?, hqueues]
    exact hq
  · rw [awaiting_congr hcalls]
    exact hroom

end Board

/-! ## Places of the receiver -/

/-- Whether the receiver goes on to read. -/
def Receiver.isReading : Receiver → Bool
  | .header _ => true
  | .matching _ => true
  | .skipping _ _ => true
  | .reply _ _ => true
  | .finishing _ none => true
  | _ => false

/-- The stage at which the receiver goes on to read. -/
def Receiver.stage : Receiver → Frame.Stage
  | .header stage => stage
  | .skipping stage _ => stage
  | .reply stage _ => stage
  | _ => .size

/-- At most how many steps the receiver takes if this many calls are in flight and this many octets
are still to be made sense of: a response takes five steps and more than five octets. -/
def Receiver.stepsLeft (calls octets : Nat) : Receiver → Nat
  | .header _ => calls + 4 * octets + 8
  | .matching _ => calls + 4 * octets + 11
  | .skipping _ _ => calls + 4 * octets + 10
  | .reply _ _ => calls + 4 * octets + 10
  | .finishing _ none => calls + 4 * octets + 9
  | .finishing _ (some _) => calls + 7
  | .stopping _ => calls + 6
  | .locking _ => calls + 5
  | .taking _ => calls + 4
  | .terminating _ ids => ids.length + 3
  | .unlocking => 2
  | .exited => 0

namespace Client

open Board

variable {σ ρ : Type} [ByteStream σ] {ending : Fault}

/-- Nothing keeps the receiver from going on, and it has at most `n` steps left. -/
structure Unhindered (d : Delivery σ ending) (c : Client σ ρ) (n : Nat) : Prop where
  room : c.board.Roomy
  lock : c.receiver.isInside = false → c.lock = none
  steps : ∃ octets, n = c.receiver.stepsLeft c.board.registry.pending.length octets ∧
    (c.receiver.isReading = true → ∃ left, d.Holds c.codec.stream left ∧
      d.Arrived c.codec.stream ∧ c.receiver.stage.Valid c.codec.limit ∧
      octets = (c.receiver.stage.taken ++ left).length)

section Unhindered

variable {d : Delivery σ ending} {events : List (Event ρ)} {c c' : Client σ ρ} {n : Nat}

/-- A frame that is read takes octets. -/
theorem length_rest_add_le {payload rest bytes : Bytes} (h : bytes = Frame.encode payload ++ rest) :
    rest.length + 4 ≤ bytes.length := by
  rw [h, Frame.encode, List.length_append, List.length_append, Bytes.length_ofNatLE]
  omega

/-- A receiver that reads a header gets one, or stops. -/
theorem Unhindered.header (h : c.Unhindered d n) {stage : Frame.Stage}
    (hat : c.receiver = .header stage) :
    ∃ c', c.stepReceiver = .moved c' ∧ ∃ n', n' < n ∧ c'.Unhindered d n' := by
  obtain ⟨octets, rfl, hoctets⟩ := h.steps
  rw [hat] at hoctets ⊢
  obtain ⟨left, hleft, harrived, hstage, rfl⟩ := hoctets rfl
  have hlock : c.lock = none := h.lock (by rw [hat]; rfl)
  cases hread : c.codec.resume stage with
  | waiting reached codec => exact absurd harrived (Codec.resume_waiting d hleft hstage hread).2.1
  | done codec result =>
      simp only [stepReceiver, hat, stepFrame, hread]
      refine ⟨_, rfl, ?_⟩
      obtain ⟨hbounded, ⟨payload, rest, rfl, -, htaken, hrest, hstill⟩ | ⟨f, rfl, -⟩⟩ :=
        Codec.resume_done d hleft hstage hread
      · have hshort := length_rest_add_le htaken
        rcases hheader : Header.ofFrame {} payload with ⟨response, fault⟩
        simp only [onHeader, Header.receive, hheader]
        cases fault with
        | none =>
            refine ⟨_, ?_, h.room, fun _ => hlock, rest.length, rfl, fun _ => ?_⟩
            · simp only [Receiver.stepsLeft]
              omega
            · exact ⟨rest, hrest, hstill harrived, Frame.Stage.valid_size _, rfl⟩
        | some f =>
            refine ⟨_, ?_, h.room, fun _ => hlock, 0, rfl, Bool.noConfusion⟩
            simp only [Receiver.stepsLeft]
            omega
      · refine ⟨_, ?_, h.room, fun _ => hlock, 0, rfl, Bool.noConfusion⟩
        simp only [Receiver.stepsLeft, onHeader, Header.receive]
        omega

/-- A receiver that has a header looks for its call. -/
theorem Unhindered.matching (h : c.Unhindered d n) {response : Header}
    (hat : c.receiver = .matching response) :
    ∃ c', c.stepReceiver = .moved c' ∧ ∃ n', n' < n ∧ c'.Unhindered d n' := by
  obtain ⟨octets, rfl, hoctets⟩ := h.steps
  rw [hat] at hoctets ⊢
  have hlock : c.lock = none := h.lock (by rw [hat]; rfl)
  have hfewer : (c.board.registry.remove response.seq).2.pending.length ≤
      c.board.registry.pending.length := List.length_filter_le ..
  simp only [stepReceiver, hat]
  refine ⟨_, rfl, ?_⟩
  cases hfind : c.board.registry.find? response.seq with
  | none =>
      simp only [onResponse, remove_of_find?_eq_none hfind]
      refine ⟨_, ?_, h.room, fun _ => hlock, octets, rfl, fun _ => hoctets rfl⟩
      simp only [noteReceiver, Receiver.stepsLeft]
      omega
  | some id =>
      simp only [onResponse, Board.remove, Registry.remove, hfind]
      by_cases herror : response.error = []
      · rw [if_pos herror]
        refine ⟨_, ?_, h.room.congr rfl rfl, fun _ => hlock, octets, rfl, fun _ => hoctets rfl⟩
        simp only [Receiver.stepsLeft]
        exact Nat.lt_of_le_of_lt
          (Nat.add_le_add_right (Nat.add_le_add_right hfewer _) _) (Nat.lt_succ_self _)
      · rw [if_neg herror]
        refine ⟨_, ?_, h.room.congr (standing_setError ..) rfl, fun _ => hlock, octets, rfl,
          fun _ => hoctets rfl⟩
        simp only [Receiver.stepsLeft]
        exact Nat.lt_of_le_of_lt
          (Nat.add_le_add_right (Nat.add_le_add_right hfewer _) _) (Nat.lt_succ_self _)

/-- A body that has arrived is read, or the receiver is told why not. -/
theorem Unhindered.body_done (h : c.Unhindered d n) {stage : Frame.Stage}
    (hat : c.receiver.bodyStage = some stage) :
    ∃ codec result, c.codec.resume stage = .done codec result ∧
      ∃ octets, c.board.registry.pending.length + 4 * octets + 10 = n ∧
        ((∃ body rest, result = .ok body ∧ rest.length + 4 ≤ octets ∧ d.Holds codec.stream rest ∧
          d.Arrived codec.stream) ∨
        ∃ f, result = .error f ∧ (f = ending ∨ f = .objectTooLarge)) := by
  obtain ⟨octets, hn, hoctets⟩ := h.steps
  have hplace : c.receiver.isReading = true ∧ c.receiver.stage = stage ∧
      ∀ calls, c.receiver.stepsLeft calls octets = calls + 4 * octets + 10 := by
    generalize c.receiver = place at hat
    cases place with
    | skipping other call => exact ⟨rfl, Option.some.inj hat, fun _ => rfl⟩
    | reply other id => exact ⟨rfl, Option.some.inj hat, fun _ => rfl⟩
    | _ => contradiction
  obtain ⟨hreading, hstage, hsteps⟩ := hplace
  obtain ⟨left, hleft, harrived, hvalid, rfl⟩ := hoctets hreading
  rw [hsteps] at hn
  rw [hstage] at hvalid hn
  cases hread : c.codec.resume stage with
  | waiting reached codec => exact absurd harrived (Codec.resume_waiting d hleft hvalid hread).2.1
  | done codec result =>
      refine ⟨codec, result, rfl, _, hn.symm, ?_⟩
      obtain ⟨-, ⟨body, rest, hok, -, htaken, hrest, hstill⟩ | ⟨f, herror, hbroken⟩⟩ :=
        Codec.resume_done d hleft hvalid hread
      · exact .inl ⟨body, rest, hok, length_rest_add_le htaken, hrest, hstill harrived⟩
      · exact .inr ⟨f, herror, hbroken.fault_eq⟩

/-- A receiver that reads past a body goes on behind it, or stops. -/
theorem Unhindered.skipping (h : c.Unhindered d n) {stage : Frame.Stage} {call : Option CallId}
    (hat : c.receiver = .skipping stage call) :
    ∃ c', c.stepReceiver = .moved c' ∧ ∃ n', n' < n ∧ c'.Unhindered d n' := by
  have hlock : c.lock = none := h.lock (by rw [hat]; rfl)
  obtain ⟨codec, result, hread, octets, rfl, hresult⟩ := h.body_done (by rw [hat]; rfl)
  simp only [stepReceiver, hat, stepFrame, hread]
  refine ⟨_, rfl, ?_⟩
  obtain ⟨body, rest, rfl, hshort, hrest, harrived⟩ | ⟨f, rfl, -⟩ := hresult
  · have hgoes : ∃ left, d.Holds codec.stream left ∧ d.Arrived codec.stream ∧
        Frame.Stage.size.Valid codec.limit ∧ rest.length = (Frame.Stage.size.taken ++ left).length :=
      ⟨rest, hrest, harrived, Frame.Stage.valid_size _, rfl⟩
    cases call with
    | none =>
        refine ⟨_, ?_, h.room, fun _ => hlock, rest.length, rfl, fun _ => hgoes⟩
        simp only [onSkipped, BodyReader.receive, BodyReader.ofFrame, afterCall, Receiver.stepsLeft]
        omega
    | some id =>
        refine ⟨_, ?_, h.room, fun _ => hlock, rest.length, rfl, fun _ => hgoes⟩
        simp only [onSkipped, BodyReader.receive, BodyReader.ofFrame, Receiver.stepsLeft]
        omega
  · cases call with
    | none =>
        refine ⟨_, ?_, h.room, fun _ => hlock, 0, rfl, Bool.noConfusion⟩
        simp only [onSkipped, BodyReader.receive, afterCall, Receiver.stepsLeft]
        omega
    | some id =>
        refine ⟨_, ?_, h.room, fun _ => hlock, 0, rfl, Bool.noConfusion⟩
        simp only [onSkipped, BodyReader.receive, Receiver.stepsLeft]
        omega

/-- A receiver that reads a reply goes on to finish its call. -/
theorem Unhindered.reply (h : c.Unhindered d n) (hending : ending ≠ .bodyDecodeFailed)
    {stage : Frame.Stage} {id : CallId} (hat : c.receiver = .reply stage id)
    (hcall : (c.board.call? id).isSome) :
    ∃ c', c.stepReceiver = .moved c' ∧ ∃ n', n' < n ∧ c'.Unhindered d n' := by
  have hlock : c.lock = none := h.lock (by rw [hat]; rfl)
  obtain ⟨call, hcall⟩ := Option.isSome_iff_exists.mp hcall
  obtain ⟨codec, result, hread, octets, rfl, hresult⟩ := h.body_done (by rw [hat]; rfl)
  have hroom (reply : ρ) (error : Status) :
      (c.board.modifyCall id ({ · with reply, error })).Roomy :=
    h.room.congr
      (map_calls_modifyCall (f := fun call => { call with reply, error }) (fun _ => rfl) c.board id) rfl
  simp only [stepReceiver, hat, stepFrame, hread]
  refine ⟨_, rfl, ?_⟩
  obtain ⟨body, rest, rfl, hshort, hrest, harrived⟩ | ⟨f, rfl, hf⟩ := hresult
  · rcases hbody : BodyReader.ofFrame call.reader call.reply body with ⟨after, entries, fault⟩
    simp only [onReply, hcall, BodyReader.receive, hbody, replyOutcome_of_ofFrame hbody]
    refine ⟨_, ?_, hroom _ _, fun _ => hlock, rest.length, rfl, fun _ =>
      ⟨rest, hrest, harrived, Frame.Stage.valid_size _, rfl⟩⟩
    simp only [noteReceiver, registry_modifyCall, Receiver.stepsLeft]
    omega
  · have hne : f ≠ .bodyDecodeFailed := by
      obtain rfl | rfl := hf
      · exact hending
      · simp
    simp only [onReply, hcall, BodyReader.receive, replyOutcome_of_ne hne]
    refine ⟨_, ?_, hroom _ _, fun _ => hlock, 0, rfl, Bool.noConfusion⟩
    simp only [noteReceiver, registry_modifyCall, Receiver.stepsLeft]
    omega

/-- A receiver that has a call to finish does so, as there is room for it. -/
theorem Unhindered.finishing (h : c.Unhindered d n) (hcustody : c.Custody events) {id : CallId}
    {fault : Option Fault} (hat : c.receiver = .finishing id fault) :
    ∃ c', c.stepReceiver = .moved c' ∧ ∃ n', n' < n ∧ c'.Unhindered d n' := by
  have hlock : c.lock = none := h.lock (by rw [hat]; rfl)
  have hheld : id ∈ c.holdings := mem_holdings_of_receiver (by simp [hat, Receiver.held])
  obtain ⟨call, hcall, hfinished, -⟩ := hcustody.call_of_mem_holdings hheld
  obtain ⟨b, hfinish, hroom⟩ := finish_of_roomy h.room hcall hfinished
  obtain ⟨octets, rfl, hoctets⟩ := h.steps
  rw [hat] at hoctets ⊢
  simp only [stepReceiver, hat, hfinish, Turn.map]
  refine ⟨_, rfl, ?_⟩
  cases fault with
  | none =>
      refine ⟨_, ?_, hroom, fun _ => hlock, octets, rfl, fun _ => hoctets rfl⟩
      simp only [registry_finish hfinish, afterCall, Receiver.stepsLeft]
      omega
  | some f =>
      refine ⟨_, ?_, hroom, fun _ => hlock, 0, rfl, Bool.noConfusion⟩
      simp only [registry_finish hfinish, afterCall, Receiver.stepsLeft]
      omega

/-- A receiver that gives a call up finishes it, as there is room for it. -/
theorem Unhindered.terminating (h : c.Unhindered d n) (hcustody : c.Custody events) {f : Fault}
    {ids : List CallId} (hat : c.receiver = .terminating f ids) :
    ∃ c', c.stepReceiver = .moved c' ∧ ∃ n', n' < n ∧ c'.Unhindered d n' := by
  obtain ⟨octets, rfl, -⟩ := h.steps
  rw [hat]
  cases ids with
  | nil =>
      simp only [stepReceiver, hat]
      refine ⟨_, rfl, _, ?_, h.room, Bool.noConfusion, 0, rfl, Bool.noConfusion⟩
      simp [Receiver.stepsLeft]
  | cons id ids =>
      have hheld : id ∈ c.holdings := mem_holdings_of_receiver (by simp [hat, Receiver.held])
      obtain ⟨call, hcall, hfinished, -⟩ := hcustody.call_of_mem_holdings hheld
      have hset : (c.board.setError id (connectionLost f)).call? id =
          some { call with error := connectionLost f } := call?_modifyCall_self hcall _
      obtain ⟨b, hfinish, hroom⟩ :=
        finish_of_roomy (h.room.congr (standing_setError ..) rfl) hset hfinished
      simp only [stepReceiver, hat, finishWith, hfinish, Turn.map]
      refine ⟨_, rfl, _, ?_, hroom, Bool.noConfusion, 0, rfl, Bool.noConfusion⟩
      simp [Receiver.stepsLeft]

/-- A receiver that nothing keeps from going on goes on, towards its end. -/
theorem Unhindered.step (h : c.Unhindered d n) (hending : ending ≠ .bodyDecodeFailed)
    (hcustody : c.Custody events) (hne : c.receiver ≠ .exited) :
    ∃ c', c.stepReceiver = .moved c' ∧ ∃ n', n' < n ∧ c'.Unhindered d n' := by
  have hlock := h.lock
  cases hat : c.receiver with
  | header stage => exact h.header hat
  | matching response => exact h.matching hat
  | skipping stage call => exact h.skipping hat
  | reply stage id => exact h.reply hending hat (hcustody.readsReply stage id hat)
  | finishing id fault => exact h.finishing hcustody hat
  | terminating f ids => exact h.terminating hcustody hat
  | exited => exact absurd hat hne
  | stopping f =>
      obtain ⟨octets, rfl, -⟩ := h.steps
      rw [hat] at hlock ⊢
      simp only [stepReceiver, hat]
      refine ⟨_, rfl, _, ?_, h.room, fun _ => hlock rfl, 0, rfl, Bool.noConfusion⟩
      simp [noteReceiver, Receiver.stepsLeft]
  | locking f =>
      obtain ⟨octets, rfl, -⟩ := h.steps
      rw [hat] at hlock ⊢
      simp only [stepReceiver, hat, hlock rfl]
      refine ⟨_, rfl, _, ?_, h.room, Bool.noConfusion, 0, rfl, Bool.noConfusion⟩
      simp [Receiver.stepsLeft]
  | taking f =>
      obtain ⟨octets, rfl, -⟩ := h.steps
      rw [hat]
      simp only [stepReceiver, hat]
      refine ⟨_, rfl, _, ?_, h.room.congr rfl rfl, Bool.noConfusion, 0, rfl, Bool.noConfusion⟩
      simp [Receiver.stepsLeft]
  | unlocking =>
      obtain ⟨octets, rfl, -⟩ := h.steps
      rw [hat]
      simp only [stepReceiver, hat]
      refine ⟨_, rfl, _, ?_, h.room, fun _ => rfl, 0, rfl, Bool.noConfusion⟩
      simp [Receiver.stepsLeft]

end Unhindered

/-! ## Runs -/

section Runs

variable {d : Delivery σ ending} {outside : σ → σ → Prop} {codec : Codec σ} {p : Preamble}
  {log : List Log.Entry}
  {order : Registry.Order} {events : List (Event ρ)} {c : Client σ ρ} {n : Nat}

/-- A receiver that nothing keeps from going on comes to its end by itself. -/
theorem Run.exits (hending : ending ≠ .bodyDecodeFailed)
    (run : Run outside (Client.start codec p log order) events c)
    (hfew : (registrations events).length < Registry.seqLimit) (h : c.Unhindered d n) :
    ∃ steps new c', c.trace (List.replicate steps .receive) = some (new, c') ∧
      c'.receiver = .exited := by
  induction n using Nat.strongRecOn generalizing events c with
  | _ n ih =>
      by_cases hexited : c.receiver = .exited
      · exact ⟨0, [], c, rfl, hexited⟩
      · obtain ⟨c₁, hmoved, n₁, hless, hnext⟩ := h.step hending (run.custody hfew) hexited
        have hstep : c.step .receive = .moved c₁ := hmoved
        have hfew₁ : (registrations (events ++ c.observe .receive)).length < Registry.seqLimit := by
          rw [registrations_append, observe, registrations_observeReceiver, List.append_nil]
          exact hfew
        obtain ⟨steps, new, c', htrace, hend⟩ :=
          ih n₁ hless (run.step .receive hstep) hfew₁ hnext
        refine ⟨steps + 1, c.observe .receive ++ new, c', ?_, hend⟩
        simp only [List.replicate_succ, Client.trace, hstep, htrace, Option.map_some]

end Runs

end Client

end RemoteCalls
