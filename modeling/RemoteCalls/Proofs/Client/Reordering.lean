import Mathlib.Data.Multiset.Basic
import RemoteCalls.Proofs.Client.Contention
import RemoteCalls.Proofs.Client.Responses

/-!
# RemoteCalls.Proofs.Client.Reordering

The order in which responses arrive does not matter.

`Board.answered` says once what a response does: it answers the call under its
number, if there is one, and leaves all others alone.  Two responses with different
numbers answer different calls, so they can be exchanged (`answered_comm`), and a
list of them can be put into any order (`answers_perm`).  Only the order of the
calls in their queues tells in which order the responses came.

Main statement: `responses_in_any_order`.
-/

namespace RemoteCalls

/-! ## What a response does -/

/-- A call after its response. -/
def Call.answered {ρ : Type} (call : Call ρ) (m : Message) : Call ρ :=
  if m.header.error = [] then
    let (reply, _, fault) := BodyReader.ofFrame call.reader call.reply m.body
    { call with reply, error := (Client.replyOutcome call.error fault).1, finished := true }
  else { call with error := Client.remoteError m.header.error, finished := true }

/-- A queue with one more call, whether there is room for it or not. -/
def CompletionQueue.append (q : CompletionQueue) (call : CallId) : CompletionQueue :=
  { q with items := q.items ++ [call] }

/-- A queue without the order of its calls. -/
def CompletionQueue.contents (q : CompletionQueue) : Nat × Multiset CallId := (q.capacity, q.items)

namespace Board

variable {ρ : Type}

/-- The queue that a call is delivered to. -/
def queueOf? (b : Board ρ) (id : CallId) : Option QueueId := (b.call? id).bind (·.queue)

/-- A board after a call has been answered and delivered. -/
def settled (b : Board ρ) (id : CallId) (m : Message) : Board ρ where
  calls := b.calls.modify id (·.answered m)
  queues := (b.queueOf? id).elim b.queues fun queue => b.queues.modify queue (·.append id)
  registry := (b.registry.remove m.header.seq).2

/-- A board after a response: the call under its number, if there is one, has been answered. -/
def answered (b : Board ρ) (m : Message) : Board ρ :=
  (b.registry.find? m.header.seq).elim b (b.settled · m)

/-- A board after responses, one after another. -/
def answers (b : Board ρ) (messages : List Message) : Board ρ := messages.foldl answered b

/-- Whose queue a response needs room in. -/
def due? (b : Board ρ) (m : Message) : Option QueueId :=
  (b.registry.find? m.header.seq).bind b.queueOf?

/-- Queues have room for the calls that these responses answer. -/
def Admits (b : Board ρ) (messages : List Message) : Prop :=
  ∀ queue q, b.queue? queue = some q →
    q.size + (messages.filterMap b.due?).count queue ≤ q.capacity

instance (b : Board ρ) (messages : List Message) : Decidable (b.Admits messages) :=
  decidable_of_iff (∀ queue < b.queues.length, ∀ q ∈ b.queue? queue,
      q.size + (messages.filterMap b.due?).count queue ≤ q.capacity)
    ⟨fun h queue q hq => h queue (List.getElem?_eq_some_iff.mp hq).1 q hq,
      fun h queue _ q hq => h queue q hq⟩

/-- No call is in flight twice, and every call in flight is unfinished and has a queue. -/
structure InFlight (b : Board ρ) : Prop where
  once : (b.registry.pending.map (·.2)).Nodup
  unfinished : ∀ id ∈ b.registry.pending.map (·.2), ∃ call, b.call? id = some call ∧
    call.finished = false
  queued : ∀ id call, b.call? id = some call →
    ∃ queue, call.queue = some queue ∧ queue < b.queues.length

/-- Two boards with the same calls, the same registry, and the same calls in each queue. -/
structure SameButOrder (b b' : Board ρ) : Prop where
  calls : b.calls = b'.calls
  registry : b.registry = b'.registry
  queues : b.queues.map CompletionQueue.contents = b'.queues.map CompletionQueue.contents

end Board

/-! ## Responses with different numbers -/

namespace Board

variable {ρ : Type} {b b' : Board ρ} {m m' : Message} {messages messages' : List Message}
  {id other : CallId}

theorem SameButOrder.refl (b : Board ρ) : b.SameButOrder b := ⟨rfl, rfl, rfl⟩

theorem SameButOrder.trans {b'' : Board ρ} (h : b.SameButOrder b') (h' : b'.SameButOrder b'') :
    b.SameButOrder b'' :=
  ⟨h.calls.trans h'.calls, h.registry.trans h'.registry, h.queues.trans h'.queues⟩

/-- What one more call does to the contents of queues. -/
theorem contents_modify_append (queues : List CompletionQueue) (queue : QueueId) (id : CallId) :
    (queues.modify queue (·.append id)).map CompletionQueue.contents =
      (queues.map CompletionQueue.contents).modify queue
        (fun (capacity, items) => (capacity, id ::ₘ items)) := by
  have hone (q : CompletionQueue) : (q.append id).contents = (q.contents.1, id ::ₘ q.contents.2) :=
    congrArg _ (Multiset.coe_eq_coe.mpr (List.perm_append_singleton id q.items))
  refine List.ext_getElem? fun i => ?_
  simp only [List.getElem?_map, List.getElem?_modify]
  split <;> cases queues[i]? <;> simp [hone]

theorem answered_of_find?_eq_none (h : b.registry.find? m.header.seq = none) :
    b.answered m = b := by
  rw [answered, h, Option.elim_none]

theorem answered_of_find? (h : b.registry.find? m.header.seq = some id) :
    b.answered m = b.settled id m := by
  rw [answered, h, Option.elim_some]

theorem call?_settled (b : Board ρ) (id other : CallId) (m : Message) :
    (b.settled id m).call? other =
      if id = other then (b.call? other).map (·.answered m) else b.call? other :=
  call?_modifyCall b id other (·.answered m)

theorem queue_answered (call : Call ρ) (m : Message) : (call.answered m).queue = call.queue := by
  unfold Call.answered
  split <;> rfl

@[simp] theorem queueOf?_settled (b : Board ρ) (id other : CallId) (m : Message) :
    (b.settled id m).queueOf? other = b.queueOf? other := by
  rw [queueOf?, queueOf?, call?_settled]
  split
  · cases b.call? other with
    | none => rfl
    | some call => exact queue_answered call m
  · rfl

/-- A response leaves the calls under other numbers in flight. -/
theorem find?_settled_of_ne (b : Board ρ) (id : CallId) {seq : UInt64}
    (hne : m.header.seq ≠ seq) :
    (b.settled id m).registry.find? seq = b.registry.find? seq :=
  Registry.find?_remove_of_ne hne

theorem length_queues_settled (b : Board ρ) (id : CallId) (m : Message) :
    (b.settled id m).queues.length = b.queues.length := by
  rw [settled]
  cases b.queueOf? id with
  | none => rfl
  | some queue => exact List.length_modify ..

/-- A call that has been answered is not in flight any more. -/
theorem InFlight.not_mem_of_find? (h : b.InFlight) {seq : UInt64}
    (hfind : b.registry.find? seq = some id) :
    id ∉ (b.registry.remove seq).2.pending.map (·.2) := by
  have hless := Client.count_pending_remove_le hfind id
  have honce := List.nodup_iff_count_le_one.mp h.once id
  rw [List.count_singleton_self] at hless
  exact List.count_eq_zero.mp (by omega)

/-- Calls under different numbers are different. -/
theorem InFlight.ne_of_find? (h : b.InFlight) {seq seq' : UInt64} (hne : seq ≠ seq')
    (hfind : b.registry.find? seq = some id) (hfind' : b.registry.find? seq' = some other) :
    id ≠ other := by
  rintro rfl
  rw [← Registry.find?_remove_of_ne hne] at hfind'
  exact h.not_mem_of_find? hfind (Client.mem_pending_of_find? hfind')

theorem InFlight.answered (h : b.InFlight) (m : Message) : (b.answered m).InFlight := by
  cases hfind : b.registry.find? m.header.seq with
  | none => rwa [answered_of_find?_eq_none hfind]
  | some id =>
      rw [answered_of_find? hfind]
      have hsub : (b.settled id m).registry.pending.Sublist b.registry.pending :=
        List.filter_sublist
      refine ⟨h.once.sublist (hsub.map _), fun other hmem => ?_, fun other call hcall => ?_⟩
      · have hne : id ≠ other := fun heq => h.not_mem_of_find? hfind (heq ▸ hmem)
        rw [call?_settled, if_neg hne]
        exact h.unfinished other ((hsub.map _).subset hmem)
      · rw [length_queues_settled]
        rw [call?_settled] at hcall
        split at hcall
        · obtain ⟨before, hbefore, rfl⟩ := Option.map_eq_some_iff.mp hcall
          rw [queue_answered]
          exact h.queued other before hbefore
        · exact h.queued other call hcall

/-- Boards that differ in the order of their queues still do after a response. -/
theorem SameButOrder.answered (h : b.SameButOrder b') (m : Message) :
    (b.answered m).SameButOrder (b'.answered m) := by
  cases hfind : b.registry.find? m.header.seq with
  | none => rwa [answered_of_find?_eq_none hfind, answered_of_find?_eq_none (h.registry ▸ hfind)]
  | some id =>
      rw [answered_of_find? hfind, answered_of_find? (h.registry ▸ hfind)]
      have hqueue : b'.queueOf? id = b.queueOf? id := by
        rw [queueOf?, queueOf?, call?, call?, h.calls]
      refine ⟨?_, ?_, ?_⟩
      · rw [settled, settled, h.calls]
      · rw [settled, settled, h.registry]
      · rw [settled, settled, hqueue]
        cases b.queueOf? id with
        | none => exact h.queues
        | some queue =>
            simp only [Option.elim_some, contents_modify_append, h.queues]

/-- **Two responses with different numbers can be exchanged.** -/
theorem answered_comm (hb : b.InFlight) (hne : m.header.seq ≠ m'.header.seq) :
    ((b.answered m).answered m').SameButOrder ((b.answered m').answered m) := by
  cases hfind : b.registry.find? m.header.seq with
  | none =>
      have hstill : (b.answered m').registry.find? m.header.seq = none := by
        cases hfind' : b.registry.find? m'.header.seq with
        | none => rwa [answered_of_find?_eq_none hfind']
        | some other => rwa [answered_of_find? hfind', find?_settled_of_ne b other hne.symm]
      rw [answered_of_find?_eq_none hfind, answered_of_find?_eq_none hstill]
      exact .refl _
  | some id =>
      rw [answered_of_find? hfind]
      cases hfind' : b.registry.find? m'.header.seq with
      | none =>
          rw [answered_of_find?_eq_none hfind', answered_of_find? hfind, answered_of_find?_eq_none]
          · exact .refl _
          · rwa [find?_settled_of_ne b id hne]
      | some other =>
          have hapart := hb.ne_of_find? hne hfind hfind'
          rw [answered_of_find? hfind',
            answered_of_find? ((find?_settled_of_ne b id hne).trans hfind'),
            answered_of_find? ((find?_settled_of_ne b other hne.symm).trans hfind)]
          refine ⟨List.modify_modify_ne _ _ _ hapart, ?_, ?_⟩
          · simp only [settled, Registry.remove, List.filter_filter, Bool.and_comm]
          · rw [settled, queueOf?_settled, settled, settled, queueOf?_settled, settled]
            cases b.queueOf? id with
            | none => cases b.queueOf? other <;> rfl
            | some queue =>
                cases b.queueOf? other with
                | none => rfl
                | some queue' =>
                    simp only [Option.elim_some, contents_modify_append]
                    -- Only where both are delivered to one queue can their order be seen.
                    by_cases hsame : queue = queue'
                    · subst hsame
                      simp only [List.modify_modify_eq, Function.comp_def,
                        Multiset.cons_swap id other]
                    · rw [List.modify_modify_ne _ _ _ hsame]

theorem SameButOrder.answers (h : b.SameButOrder b') (messages : List Message) :
    (b.answers messages).SameButOrder (b'.answers messages) := by
  induction messages generalizing b b' with
  | nil => exact h
  | cons m messages ih => exact ih (h.answered m)

/-- Responses with different numbers can be put into any order. -/
theorem answers_perm (hperm : messages.Perm messages') (hb : b.InFlight)
    (hseqs : (messages.map (·.header.seq)).Nodup) :
    (b.answers messages).SameButOrder (b.answers messages') := by
  induction hperm generalizing b with
  | nil => exact .refl b
  | cons m _ ih => exact ih (hb.answered m) (List.nodup_cons.mp hseqs).2
  | swap m m' messages =>
      -- The others follow on boards that differ in the order of their queues only.
      have hne : m'.header.seq ≠ m.header.seq := by
        intro heq
        exact (List.nodup_cons.mp hseqs).1 (List.mem_cons.mpr (.inl heq))
      exact (answered_comm hb hne).answers messages
  | trans hperm _ ih ih' => exact (ih hb hseqs).trans (ih' hb ((hperm.map _).nodup_iff.mp hseqs))

/-- Room for responses does not depend on their order. -/
theorem Admits.perm (h : b.Admits messages) (hperm : messages.Perm messages') :
    b.Admits messages' := by
  intro queue q hq
  rw [← (hperm.filterMap b.due?).count_eq]
  exact h queue q hq

/-- There is room for a call that is answered next. -/
theorem Admits.hasRoom (h : b.Admits (m :: messages)) {queue : QueueId} {q : CompletionQueue}
    (hdue : b.due? m = some queue) (hq : b.queue? queue = some q) : q.hasRoom = true := by
  have hroom := h queue q hq
  rw [List.filterMap_cons_some hdue, List.count_cons_self] at hroom
  simp only [CompletionQueue.hasRoom, decide_eq_true_eq]
  omega

/-- Once a call has been answered, there is room for the others. -/
theorem Admits.tail (h : b.Admits (m :: messages))
    (hseqs : ((m :: messages).map (·.header.seq)).Nodup) : (b.answered m).Admits messages := by
  have hdue : messages.filterMap (b.answered m).due? = messages.filterMap b.due? := by
    refine List.filterMap_congr fun m' hm' => ?_
    have hne : m.header.seq ≠ m'.header.seq := fun heq =>
      (List.nodup_cons.mp hseqs).1 (List.mem_map.mpr ⟨m', hm', heq.symm⟩)
    cases hfind : b.registry.find? m.header.seq with
    | none => rw [answered_of_find?_eq_none hfind]
    | some id =>
        rw [answered_of_find? hfind, due?, due?, find?_settled_of_ne b id hne]
        exact congrArg _ (funext fun other => queueOf?_settled b id other m)
  intro queue q hq
  rw [hdue]
  cases hfind : b.registry.find? m.header.seq with
  | none =>
      rw [answered_of_find?_eq_none hfind] at hq
      have hroom := h queue q hq
      rwa [List.filterMap_cons_none (by rw [due?, hfind, Option.bind_none])] at hroom
  | some id =>
      have hmine : b.due? m = b.queueOf? id := by rw [due?, hfind, Option.bind_some]
      rw [answered_of_find? hfind, queue?, settled] at hq
      cases hqueue : b.queueOf? id with
      | none =>
          rw [hqueue, Option.elim_none] at hq
          have hroom := h queue q hq
          rwa [List.filterMap_cons_none (hmine.trans hqueue)] at hroom
      | some mine =>
          rw [hqueue, Option.elim_some, List.getElem?_modify] at hq
          split at hq
          case isTrue hsame =>
            -- The call takes up room that was kept for it.
            subst hsame
            obtain ⟨before, hbefore, rfl⟩ := Option.map_eq_some_iff.mp hq
            have hroom := h mine before hbefore
            rw [List.filterMap_cons_some (hmine.trans hqueue), List.count_cons_self] at hroom
            simp only [CompletionQueue.append, CompletionQueue.size, List.length_append,
              List.length_singleton] at hroom ⊢
            omega
          case isFalse hne =>
            have hroom := h queue q (Option.map_id'.symm.trans hq)
            rwa [List.filterMap_cons_some (hmine.trans hqueue), List.count_cons_of_ne hne] at hroom

/-- A call that has its outcome and its reply from a response is finished at once if its queue has
room, and is then as it should be. -/
theorem finish_settled {call : Call ρ} {queue : QueueId} {q : CompletionQueue} {f : Call ρ → Call ρ}
    (hcall : b.call? id = some call) (hqueue : call.queue = some queue)
    (hq : b.queue? queue = some q) (hroom : q.hasRoom = true)
    (hfinished : (f call).finished = false)
    (hf : { f call with finished := true } = call.answered m) :
    (modifyCall { b with registry := (b.registry.remove m.header.seq).2 } id f).finish id =
      .moved (b.settled id m) := by
  have hcall' := call?_modifyCall_self
    (b := { b with registry := (b.registry.remove m.header.seq).2 }) hcall f
  have hqueue' : (f call).queue = some queue := by
    rw [← hqueue, ← queue_answered call m, ← hf]
  rw [finish_of_hasRoom hcall' hfinished hqueue' hq hroom]
  have hcalls : b.modifyCall id (fun call => { f call with finished := true }) =
      b.modifyCall id (·.answered m) := modifyCall_congr hcall hf
  have hqueues : b.queues.modify queue (·.append id) = b.queues.set queue (q.append id) := by
    rw [queue?] at hq
    rw [List.modify_eq_set_getElem?, hq]
    rfl
  have hmine : b.queueOf? id = some queue := by rw [queueOf?, hcall, Option.bind_some, hqueue]
  rw [settled, hmine, Option.elim_some, hqueues, delivered, modifyCall, modifyCall,
    List.modify_modify_eq]
  exact congrArg (fun calls => Turn.moved { b with
    calls, queues := b.queues.set queue (q.append id),
    registry := (b.registry.remove m.header.seq).2 }) (congrArg Board.calls hcalls)

end Board

/-! ## How the receiver takes responses -/

namespace Client

open Board

variable {σ ρ : Type} [ByteStream σ] {ending : Fault} {d : Delivery σ ending}

/-- From one client to another by the same move again and again. -/
def Repeats (move : Move ρ) : Client σ ρ → Client σ ρ → Prop :=
  Relation.ReflTransGen fun c c' => c.step move = .moved c'

/-- The receiver is about to read a response, and these octets are to be read. -/
structure Faces (d : Delivery σ ending) (c : Client σ ρ) (bytes : Bytes) : Prop where
  place : c.receiver = .header .size
  holds : d.Holds c.codec.stream bytes
  arrived : d.Arrived c.codec.stream

/-- The receiver by itself takes one client to another, which is about to read `rest`; only these
messages have been taken from the connection, and the calls that they answer have been answered. -/
structure Receives (d : Delivery σ ending) (c : Client σ ρ) (messages : List Message) (rest : Bytes)
    (c' : Client σ ρ) : Prop where
  repeats : Repeats .receive c c'
  faces : c'.Faces d rest
  limit : c'.codec.limit = c.codec.limit
  only : ∃ codec log,
    c' = { c with codec, board := c.board.answers messages, receiverLog := log }

section Steps

variable {c : Client σ ρ} {m : Message} {messages : List Message} {rest : Bytes}

/-- The header of a response is read in one step, and its body can be read in another. -/
theorem Faces.reads (h : c.Faces d (m.encode ++ rest)) (hm : m.Fits c.codec.limit) :
    ∃ codec codec', c.step .receive = .moved { c with codec, receiver := .matching m.header } ∧
      codec.resume .size = .done codec' (.ok m.body) ∧ codec'.limit = c.codec.limit ∧
      d.Holds codec'.stream rest ∧ d.Arrived codec'.stream := by
  have hholds := h.holds
  rw [Message.encode, List.append_assoc] at hholds
  obtain ⟨codec, hread, hlimit, hbody, hstill⟩ := c.codec.resume_encode d h.arrived hm.frame hholds
  obtain ⟨codec', hread', hlimit', hrest, harrived⟩ :=
    codec.resume_encode d hstill (hlimit ▸ hm.body) hbody
  refine ⟨codec, codec', ?_, hread', hlimit'.trans hlimit, hrest, harrived⟩
  simp only [step, stepReceiver, h.place, stepFrame, hread, onHeader, Header.receive,
    Header.ofFrame_eq_iff.mpr ⟨rfl, hm.header⟩]

/-- A receiver that gets back to where it was has taken one response. -/
theorem Faces.receives_of_repeats {bytes : Bytes} (h : c.Faces d bytes) {codec : Codec σ}
    {log : List Log.Entry} {b : Board ρ} (hanswered : c.board.answered m = b)
    (hrepeats : Repeats .receive c
      { c with codec, board := b, receiver := .header .size, receiverLog := log })
    (hlimit : codec.limit = c.codec.limit) (hholds : d.Holds codec.stream rest)
    (harrived : d.Arrived codec.stream) : ∃ c', c.Receives d [m] rest c' := by
  refine ⟨_, hrepeats, ⟨rfl, hholds, harrived⟩, hlimit, codec, log, ?_⟩
  rw [answers, List.foldl_cons, List.foldl_nil, hanswered, ← h.place]

/-- A response to no call is read past. -/
theorem Faces.receives_stray (h : c.Faces d (m.encode ++ rest)) (hm : m.Fits c.codec.limit)
    (hfind : c.board.registry.find? m.header.seq = none) :
    ∃ c', c.Receives d [m] rest c' := by
  obtain ⟨codec, codec', hheader, hbody, hlimit, hrest, hstill⟩ := h.reads hm
  let c₁ : Client σ ρ := { c with codec, receiver := .matching m.header }
  let c₂ := noteReceiver { c₁ with receiver := .skipping .size none } [strayResponse m.header]
  have hmatch : c₁.step .receive = .moved c₂ := by
    simp only [step, stepReceiver, onResponse, c₁, remove_of_find?_eq_none hfind, c₂]
  have hskip : c₂.step .receive =
      .moved { c₂ with codec := codec', receiver := .header .size } := by
    simp only [step, stepReceiver, stepFrame, c₂, noteReceiver, c₁, hbody, onSkipped,
      BodyReader.receive, BodyReader.ofFrame, afterCall]
  exact h.receives_of_repeats (answered_of_find?_eq_none hfind)
    (.head hheader (.head hmatch (.single hskip))) hlimit hrest hstill

section Call

variable {id : CallId} {call : Call ρ} {queue : QueueId} {q : CompletionQueue}
  (h : c.Faces d (m.encode ++ rest)) (hm : m.Fits c.codec.limit)
  (hfind : c.board.registry.find? m.header.seq = some id) (hcall : c.board.call? id = some call)
  (hfinished : call.finished = false) (hqueue : call.queue = some queue)
  (hq : c.board.queue? queue = some q) (hroom : q.hasRoom = true)

include h hm hfind hcall hfinished hqueue hq hroom

/-- A call that failed at the peer is finished once its body has been read past. -/
theorem Faces.receives_error (herror : m.header.error ≠ []) :
    ∃ c', c.Receives d [m] rest c' := by
  obtain ⟨codec, codec', hheader, hbody, hlimit, hrest, hstill⟩ := h.reads hm
  let c₁ : Client σ ρ := { c with codec, receiver := .matching m.header }
  let failed := setError { c.board with registry := (c.board.registry.remove m.header.seq).2 } id
    (remoteError m.header.error)
  let c₂ : Client σ ρ := { c₁ with board := failed, receiver := .skipping .size (some id) }
  let c₃ : Client σ ρ := { c₂ with codec := codec', receiver := .finishing id none }
  have hmatch : c₁.step .receive = .moved c₂ := by
    simp only [step, stepReceiver, onResponse, c₁, Board.remove, Registry.remove, hfind, herror,
      if_false, c₂, failed]
  have hskip : c₂.step .receive = .moved c₃ := by
    simp only [step, stepReceiver, stepFrame, c₂, c₁, hbody, onSkipped, BodyReader.receive,
      BodyReader.ofFrame, c₃]
  have hdone : failed.finish id = .moved (c.board.settled id m) :=
    finish_settled hcall hqueue hq hroom hfinished (if_neg herror).symm
  have hfinish : c₃.step .receive =
      .moved { c₃ with board := c.board.settled id m, receiver := .header .size } := by
    simp only [step, stepReceiver, c₃, c₂, hdone, Turn.map, afterCall]
  exact h.receives_of_repeats (answered_of_find? hfind)
    (.head hheader (.head hmatch (.head hskip (.single hfinish)))) hlimit hrest hstill

/-- A call that the peer has carried out is finished once its reply has been read, whatever its
reader makes of it. -/
theorem Faces.receives_reply (herror : m.header.error = []) :
    ∃ c', c.Receives d [m] rest c' := by
  obtain ⟨codec, codec', hheader, hbody, hlimit, hrest, hstill⟩ := h.reads hm
  rcases hread : BodyReader.ofFrame call.reader call.reply m.body with ⟨reply, entries, fault⟩
  let c₁ : Client σ ρ := { c with codec, receiver := .matching m.header }
  let matched := { c.board with registry := (c.board.registry.remove m.header.seq).2 }
  let c₂ : Client σ ρ := { c₁ with board := matched, receiver := .reply .size id }
  let error := (replyOutcome call.error fault).1
  let read := matched.modifyCall id ({ · with reply, error })
  let c₃ := noteReceiver { c₂ with codec := codec', board := read, receiver := .finishing id none }
    entries
  have hmatch : c₁.step .receive = .moved c₂ := by
    simp only [step, stepReceiver, onResponse, c₁, Board.remove, Registry.remove, hfind, herror,
      if_true, c₂, matched]
  have hreply : c₂.step .receive = .moved c₃ := by
    have hcall' : matched.call? id = some call := hcall
    have hgoes := replyOutcome_of_ofFrame hread call.error
    simp only [step, stepReceiver, stepFrame, c₂, c₁, hbody, onReply, hcall', BodyReader.receive,
      hread, hgoes, c₃, read, error]
  have hdone : read.finish id = .moved (c.board.settled id m) := by
    refine finish_settled hcall hqueue hq hroom hfinished ?_
    simp only [Call.answered, herror, if_true, hread, error]
  have hfinish : c₃.step .receive =
      .moved { c₃ with board := c.board.settled id m, receiver := .header .size } := by
    simp only [step, stepReceiver, c₃, noteReceiver, hdone, Turn.map, afterCall]
  exact h.receives_of_repeats (answered_of_find? hfind)
    (.head hheader (.head hmatch (.head hreply (.single hfinish)))) hlimit hrest hstill

end Call

/-- **Every response is taken whole, whomever it answers.** -/
theorem Faces.receives_one (h : c.Faces d (m.encode ++ rest)) (hm : m.Fits c.codec.limit)
    (hb : c.board.InFlight) (hroom : c.board.Admits (m :: messages)) :
    ∃ c', c.Receives d [m] rest c' := by
  cases hfind : c.board.registry.find? m.header.seq with
  | none => exact h.receives_stray hm hfind
  | some id =>
      obtain ⟨call, hcall, hfinished⟩ := hb.unfinished id (mem_pending_of_find? hfind)
      obtain ⟨queue, hqueue, hlt⟩ := hb.queued id call hcall
      have hq : c.board.queue? queue = some c.board.queues[queue] := List.getElem?_eq_getElem hlt
      have hdue : c.board.due? m = some queue := by
        rw [due?, hfind, Option.bind_some, queueOf?, hcall, Option.bind_some, hqueue]
      have hone := hroom.hasRoom hdue hq
      by_cases herror : m.header.error = []
      · exact h.receives_reply hm hfind hcall hfinished hqueue hq hone herror
      · exact h.receives_error hm hfind hcall hfinished hqueue hq hone herror

theorem Receives.append {c' c'' : Client σ ρ} {bytes : Bytes} {messages later : List Message}
    (h : c.Receives d messages bytes c') (h' : c'.Receives d later rest c'') :
    c.Receives d (messages ++ later) rest c'' := by
  refine ⟨h.repeats.trans h'.repeats, h'.faces, h'.limit.trans h.limit, ?_⟩
  obtain ⟨codec, log, rfl⟩ := h.only
  obtain ⟨codec', log', hlater⟩ := h'.only
  have hanswers : (c.board.answers messages).answers later = c.board.answers (messages ++ later) :=
    List.foldl_append.symm
  exact ⟨codec', log', hanswers ▸ hlater⟩

/-- Responses are taken one after another. -/
theorem Faces.receives (h : c.Faces d (messages.flatMap Message.encode ++ rest))
    (hfits : ∀ m ∈ messages, m.Fits c.codec.limit) (hb : c.board.InFlight)
    (hseqs : (messages.map (·.header.seq)).Nodup) (hroom : c.board.Admits messages) :
    ∃ c', c.Receives d messages rest c' := by
  induction messages generalizing c with
  | nil => exact ⟨c, .refl, h, rfl, c.codec, c.receiverLog, rfl⟩
  | cons m messages ih =>
      obtain ⟨hm, hmore⟩ := List.forall_mem_cons.mp hfits
      rw [List.flatMap_cons, List.append_assoc] at h
      obtain ⟨c₁, hone⟩ := h.receives_one hm hb hroom
      have hboard : c₁.board = c.board.answered m := by
        obtain ⟨codec, log, rfl⟩ := hone.only
        rfl
      obtain ⟨c₂, hlater⟩ := ih hone.faces (hone.limit ▸ hmore) (hboard ▸ hb.answered m)
        (List.nodup_cons.mp hseqs).2 (hboard ▸ hroom.tail hseqs)
      exact ⟨c₂, hone.append hlater⟩

end Steps

/-! ## Main statement -/

theorem Walk.inFlight {outside : σ → σ → Prop} {codec : Codec σ} {p : Preamble}
    {log : List Log.Entry} {order : Registry.Order} {steps : List (Taken σ ρ)} {c : Client σ ρ}
    (walk : Walk outside (Client.start codec p log order) steps c) : c.board.InFlight where
  once := by
    have honce := walk.holding.once
    rw [holdings, List.nodup_append, List.nodup_append] at honce
    exact honce.2.1.2.1
  unfinished id hmem := by
    refine walk.holding.unfinished id ?_
    rw [holdings, List.mem_append, List.mem_append]
    exact .inr (.inr hmem)
  queued := walk.stocked.queued

/-- **The order of responses does not matter.**  Take any state of a client in which the receiver is
between two responses, and responses with different numbers, in one order and in another.  If the
queues have room for the calls that are answered, the receiver takes them all in both cases, and
leaves the same calls, with the same outcomes and replies, the same calls in flight, and a client
that is as available; nothing else of the client has changed, and every queue holds the same
calls. -/
theorem responses_in_any_order {outside : σ → σ → Prop} {codec : Codec σ} {p : Preamble}
    {log : List Log.Entry} {order : Registry.Order} {steps : List (Taken σ ρ)} {c : Client σ ρ}
    (walk : Walk outside (start codec p log order) steps c) (hat : c.receiver = .header .size)
    {messages messages' : List Message} (hperm : messages.Perm messages')
    (hseqs : (messages.map (·.header.seq)).Nodup) (hfits : ∀ m ∈ messages, m.Fits c.codec.limit)
    (hroom : c.board.Admits messages) {s s' : σ} {rest : Bytes} (harrived : d.Arrived s)
    (hholds : d.Holds s (messages.flatMap Message.encode ++ rest)) (harrived' : d.Arrived s')
    (hholds' : d.Holds s' (messages'.flatMap Message.encode ++ rest)) :
    ∃ c₁ c₂, (c.withStream s).Receives d messages rest c₁ ∧
      (c.withStream s').Receives d messages' rest c₂ ∧
      c₁.board.SameButOrder c₂.board ∧ c₁.isAvailable = c₂.isAvailable := by
  have hfaces : (c.withStream s).Faces d (messages.flatMap Message.encode ++ rest) :=
    ⟨hat, hholds, harrived⟩
  have hfaces' : (c.withStream s').Faces d (messages'.flatMap Message.encode ++ rest) :=
    ⟨hat, hholds', harrived'⟩
  obtain ⟨c₁, hone⟩ := hfaces.receives hfits walk.inFlight hseqs hroom
  obtain ⟨c₂, htwo⟩ := hfaces'.receives (fun m hm => hfits m (hperm.mem_iff.mpr hm)) walk.inFlight
    ((hperm.map _).nodup_iff.mp hseqs) (hroom.perm hperm)
  have hsame : c₁.board.SameButOrder c₂.board := by
    obtain ⟨_, _, rfl⟩ := hone.only
    obtain ⟨_, _, rfl⟩ := htwo.only
    exact answers_perm hperm walk.inFlight hseqs
  exact ⟨c₁, c₂, hone, htwo, hsame, congrArg Registry.isAvailable hsame.registry⟩

/-- A connection that brings these messages, and then ends. -/
def bringing (messages : List Message) : MemoryStream :=
  { incoming := messages.flatMap Message.encode, ended := true }

theorem bringing_holds (messages : List Message) :
    (MemoryStream.delivery .connectionClosed).Holds (bringing messages)
      (messages.flatMap Message.encode ++ []) :=
  ⟨(List.append_nil _).symm, rfl, rfl, rfl, rfl⟩

/-- Two calls wait for replies, and three responses arrive, of which one belongs to no call: in
whatever order they come, the first call has failed and the second has its reply. -/
theorem responses_in_any_order_three_responses :
    ∃ (steps : List (Taken MemoryStream Bytes)) (c c₁ c₂ : Client MemoryStream Bytes)
      (failure stray reply : Message),
      Walk (fun _ _ => True) (start { stream := {} } {} []) steps c ∧ c.pendingCount = 2 ∧
      (c.withStream (bringing [failure, stray, reply])).Receives
        (MemoryStream.delivery .connectionClosed) [failure, stray, reply] [] c₁ ∧
      (c.withStream (bringing [reply, stray, failure])).Receives
        (MemoryStream.delivery .connectionClosed) [reply, stray, failure] [] c₂ ∧
      c₁.board.SameButOrder c₂.board ∧
      c₁.board.calls.map Call.result =
        [(remoteError failure.header.error, []), ({}, reply.body)] := by
  let failure : Message := { header := { seq := 1, error := [110, 111] }, body := [] }
  let stray : Message := { header := { seq := 9 }, body := [7] }
  let reply : Message := { header := { seq := 2 }, body := [4, 2] }
  let request : Request Bytes := { reader := some Message.wholeBody, reply := [] }
  have hcourse : ((start { stream := ({} : MemoryStream) } {} []).course
      ([.go request none, .go request none] ++ List.replicate 5 (.task 0) ++
        List.replicate 5 (.task 1))).any (fun (_, c) =>
      c.receiver = .header .size && c.codec.limit = defaultLimit && c.pendingCount = 2 &&
        decide (c.board.Admits [failure, stray, reply]) &&
        (c.board.answers [failure, stray, reply]).calls.map Call.result =
          [(remoteError failure.header.error, []), ({}, reply.body)]) = true := by
    decide +kernel
  obtain ⟨steps, c, walk, hchecks⟩ := exists_walk_of_course (fun _ _ => True) hcourse
  simp only [Bool.and_eq_true, decide_eq_true_eq] at hchecks
  obtain ⟨⟨⟨⟨hat, hlimit⟩, htwo⟩, hroom⟩, hresults⟩ := hchecks
  have hperm : [failure, stray, reply].Perm [reply, stray, failure] :=
    (List.reverse_perm [failure, stray, reply]).symm
  have hsmall : ∀ m ∈ [failure, stray, reply],
      m.header.encode.length ≤ defaultLimit ∧ m.body.length ≤ defaultLimit := by decide
  have hfits : ∀ m ∈ [failure, stray, reply], m.Fits c.codec.limit := by
    intro m hm
    rw [hlimit]
    exact Message.fits_of_length (by decide) (hsmall m hm).1 (hsmall m hm).2
  obtain ⟨c₁, c₂, hone, hother, hsame, -⟩ :=
    responses_in_any_order walk hat hperm (by decide) hfits hroom trivial
      (bringing_holds [failure, stray, reply]) trivial (bringing_holds [reply, stray, failure])
  refine ⟨steps, c, c₁, c₂, failure, stray, reply, walk, htwo, hone, hother, hsame, ?_⟩
  obtain ⟨_, _, rfl⟩ := hone.only
  exact hresults

end Client

end RemoteCalls
