import RemoteCalls.Proofs.Client.Sparing

/-!
# RemoteCalls.Proofs.Client.Delivery

Where the calls are that have been finished.

To finish a call is to put it into its queue, and only whoever collects it takes
it out again.  So no call is lost between the two, and none comes from elsewhere:
what goes into a queue in a step is what is finished in it (`Effect.balanced`), and
the calls finished so far are those that have been collected and those that wait.

Main statement: `delivered_in_order`.
-/

namespace RemoteCalls

namespace Board

variable {ρ : Type} {b b' : Board ρ} {queue other : QueueId} {id : CallId}

/-- The calls that wait in a queue, the oldest first. -/
def waiting (b : Board ρ) (queue : QueueId) : List CallId := (b.queue? queue).elim [] (·.items)

/-- Whether a call is delivered to this queue. -/
def goesTo (b : Board ρ) (queue : QueueId) (id : CallId) : Bool :=
  (b.call? id).any fun call => call.queue = some queue

theorem waiting_congr (hqueues : b'.queues = b.queues) : b'.waiting queue = b.waiting queue := by
  rw [waiting, queue?, hqueues]
  rfl

/-- A new queue is empty. -/
theorem waiting_addQueue (b : Board ρ) (capacity : Nat) :
    (b.addQueue capacity).1.waiting queue = b.waiting queue := by
  simp only [waiting, queue?, addQueue, List.getElem?_append]
  split
  case isTrue => rfl
  case isFalse hnew =>
    rw [List.getElem?_eq_none (Nat.not_lt.mp hnew), List.getElem?_singleton]
    split <;> rfl

/-- What waits in a queue that has been put in the place of another. -/
theorem waiting_set {q q' : CompletionQueue} (hq : b.queue? other = some q)
    (hqueues : b'.queues = b.queues.set other q') :
    b'.waiting queue = if other = queue then q'.items else b.waiting queue := by
  have hlt : other < b.queues.length := (List.getElem?_eq_some_iff.mp hq).1
  simp only [waiting, queue?, hqueues, List.getElem?_set, hlt, if_true]
  split <;> rfl

/-- What is collected from a queue stood in front of what waits there then. -/
theorem waiting_pop? (hpop : b.pop? other = some (id, b')) (queue : QueueId) :
    (if other = queue then [id] else []) ++ b'.waiting queue = b.waiting queue := by
  obtain ⟨q, items, hq, hitems, rfl⟩ := pop?_front hpop
  rw [waiting_set hq rfl]
  split
  case isTrue heq => simp [waiting, ← heq, hq, hitems]
  case isFalse => rfl

/-- A call that is finished waits behind all others in its queue, and in no other queue. -/
theorem waiting_finish (hfinish : b.finish id = .moved b') :
    b'.waiting queue = b.waiting queue ++ [id].filter (b.goesTo queue) := by
  obtain ⟨call, mine, q, hcall, -, hmine, hq, -, rfl⟩ := finish_delivered hfinish
  rw [waiting_set hq rfl, List.filter_singleton]
  split
  case isTrue heq => simp [goesTo, hcall, hmine, waiting, ← heq, hq]
  case isFalse hne => simp [goesTo, hcall, hmine, hne]

end Board

namespace Client

open Board

variable {σ ρ : Type}

/-- The call that is collected from this queue in a step, if any. -/
def Taken.collectedFrom? (queue : QueueId) (s : Taken σ ρ) : Option CallId :=
  if s.before.collectsFrom? s.move = some queue then s.before.collects? s.move else none

variable [ByteStream σ] {c c' : Client σ ρ} {move : Move ρ} {queue : QueueId}

/-! ## One step -/

/-- What is finished in a step is what is delivered in it. -/
theorem Locked.finishes_observe (h : c.Locked) (move : Move ρ) :
    finishes (c.observe move) = (c.pushes? move).toList := by
  cases move with
  | go r queue =>
      simp only [observe, pushes?]
      split <;> rfl
  | task t =>
      simp only [observe, pushes?]
      cases htask : c.tasks[t]? with
      | none => rfl
      | some task =>
          cases task with
          | close drops phase => rfl
          | send id waits phase =>
              obtain ⟨call, hcall⟩ := h.exists_call htask
              simp only [hcall, Option.elim_some]
              cases phase with
              | registering =>
                  simp only [observeSend]
                  split <;> rfl
              | writing =>
                  simp only [observeSend]
                  split <;> rfl
              | _ => rfl
  | receive =>
      have hbody (stage : Frame.Stage) : finishes (c.observeBody stage) = [] := by
        unfold observeBody
        split <;> rfl
      simp only [observe, observeReceiver, pushes?, finishing?]
      cases c.receiver with
      | skipping stage call => exact hbody stage
      | reply stage id => exact hbody stage
      | terminating f ids => cases ids <;> rfl
      | _ => rfl
  | _ => rfl

/-- What a step takes out of a queue stood in front there, and what it puts into it is what is
delivered in it. -/
def Balanced (c : Client σ ρ) (move : Move ρ) (b' : Board ρ) (queue : QueueId) : Prop :=
  (Taken.collectedFrom? queue ⟨c, move⟩).toList ++ b'.waiting queue =
    c.board.waiting queue ++ (c.pushes? move).toList.filter (c.board.goesTo queue)

section Balanced

omit [ByteStream σ]

variable {b' : Board ρ}

theorem balanced_still (hfrom : c.collectsFrom? move = none) (hpushes : c.pushes? move = none)
    (hsame : b'.waiting queue = c.board.waiting queue) : Balanced c move b' queue := by
  simp [Balanced, Taken.collectedFrom?, hfrom, hpushes, hsame]

theorem balanced_collect {other : QueueId} {id : CallId} (hfrom : c.collectsFrom? move = some other)
    (hpushes : c.pushes? move = none) (hpop : c.board.pop? other = some (id, b')) :
    Balanced c move b' queue := by
  rw [Balanced, hpushes, ← waiting_pop? hpop queue]
  by_cases heq : other = queue
  · subst heq
    simp [Taken.collectedFrom?, collects?, hfrom, hpop]
  · simp [Taken.collectedFrom?, hfrom, heq]

theorem balanced_deliver {b : Board ρ} {id : CallId} (hfrom : c.collectsFrom? move = none)
    (hpushes : c.pushes? move = some id) (hqueues : b.queues = c.board.queues)
    (hgoes : b.goesTo queue id = c.board.goesTo queue id) (hfinish : b.finish id = .moved b') :
    Balanced c move b' queue := by
  rw [Balanced, waiting_finish hfinish, waiting_congr hqueues, hpushes, Option.toList_some,
    List.filter_singleton, List.filter_singleton, hgoes]
  simp [Taken.collectedFrom?, hfrom]

end Balanced

/-- **Nothing is lost between finishing and collecting.** -/
theorem Effect.balanced (h : Effect c move c') (queue : QueueId) :
    Balanced c move c'.board queue := by
  cases h with
  | queue capacity => exact balanced_still rfl rfl (waiting_addQueue ..)
  | @alone move r capacity waits halone =>
      have hsame : (beginSend { c with board := (c.board.addQueue capacity).1 } r
          c.board.queues.length waits).1.board.waiting queue = c.board.waiting queue :=
        waiting_addQueue ..
      cases move <;> first | exact balanced_still rfl rfl hsame | contradiction
  | go => exact balanced_still rfl rfl rfl
  | refuse => exact balanced_still rfl rfl rfl
  | close => exact balanced_still rfl rfl rfl
  | collect hpop => exact balanced_collect rfl rfl hpop
  | send htask hcall h =>
      cases h with
      | finish hdone =>
          exact balanced_deliver (by simp [collectsFrom?, htask]) (by simp [pushes?, htask]) rfl rfl
            hdone
      | collect hqueue hpop =>
          exact balanced_collect (by simp [collectsFrom?, htask, hcall, hqueue])
            (by simp [pushes?, htask]) hpop
      | _ =>
          exact balanced_still (by simp [collectsFrom?, htask]) (by simp [pushes?, htask]) rfl
  | passOver htask =>
      exact balanced_still (by simp [collectsFrom?, htask]) (by simp [pushes?, htask]) rfl
  | @closing t drops phase _ htask h =>
      have hfrom : c.collectsFrom? (.task t) = none := by simp [collectsFrom?, htask]
      have hpushes : c.pushes? (.task t) = none := by simp [pushes?, htask]
      cases h with
      | _ => exact balanced_still hfrom hpushes rfl
  | receive h =>
      generalize hat : c.receiver = place at h
      cases h with
      | finish hdone => exact balanced_deliver rfl (by simp [pushes?, finishing?, hat]) rfl rfl hdone
      | @terminate f id ids b hdone =>
          have hgoes : (c.board.setError id (connectionLost f)).goesTo queue id =
              c.board.goesTo queue id := by
            rw [goesTo, goesTo, setError, call?_modifyCall, if_pos rfl, Option.any_map]
          exact balanced_deliver (b := c.board.setError id (connectionLost f)) rfl
            (by simp [pushes?, finishing?, hat]) rfl hgoes hdone
      | _ => exact balanced_still rfl (by simp [pushes?, finishing?, hat]) rfl

/-! ## Every walk -/

/-- What has been finished so far has been begun, and has been collected or still waits. -/
structure Ledger (queue : QueueId) (steps : List (Taken σ ρ)) (c : Client σ ρ) : Prop where
  made : ∀ id ∈ finishes (steps.flatMap Taken.events), ∃ call, c.board.call? id = some call
  order : (finishes (steps.flatMap Taken.events)).filter (c.board.goesTo queue) =
    steps.filterMap (Taken.collectedFrom? queue) ++ c.board.waiting queue

theorem Ledger.step {steps : List (Taken σ ρ)} {s : Taken σ ρ} (h : Ledger queue steps s.before)
    (hholding : s.before.Holding) (hlocked : s.before.Locked)
    (heffect : Effect s.before s.move c') : Ledger queue (steps ++ [s]) c' := by
  have hnew : finishes ((steps ++ [s]).flatMap Taken.events) =
      finishes (steps.flatMap Taken.events) ++ (s.before.pushes? s.move).toList := by
    rw [List.flatMap_append, finishes_append, List.flatMap_singleton, Taken.events,
      hlocked.finishes_observe]
  have hmade : ∀ id ∈ finishes (steps.flatMap Taken.events) ++ (s.before.pushes? s.move).toList,
      ∃ call, s.before.board.call? id = some call := by
    intro id hid
    obtain hold | hpushes := List.mem_append.mp hid
    · exact h.made id hold
    · have hreach := mem_reach_of_pushes (Option.mem_toList.mp hpushes)
      obtain ⟨call, hcall, -⟩ := hholding.unfinished id (mem_holdings_of_reach hreach)
      exact ⟨call, hcall⟩
  have hgoes : ∀ id ∈ finishes (steps.flatMap Taken.events) ++ (s.before.pushes? s.move).toList,
      c'.board.goesTo queue id = s.before.board.goesTo queue id := by
    intro id hid
    obtain ⟨call, hcall⟩ := hmade id hid
    obtain ⟨after, hafter, hsame, -⟩ := heffect.traffic.exists_call hcall
    simp [goesTo, hcall, hafter, hsame]
  refine ⟨fun id hid => ?_, ?_⟩
  · obtain ⟨call, hcall⟩ := hmade id (hnew ▸ hid)
    obtain ⟨after, hafter, -⟩ := heffect.traffic.exists_call hcall
    exact ⟨after, hafter⟩
  · have hbalanced : Balanced s.before s.move c'.board queue := heffect.balanced queue
    calc (finishes ((steps ++ [s]).flatMap Taken.events)).filter (c'.board.goesTo queue)
        = (finishes (steps.flatMap Taken.events) ++ (s.before.pushes? s.move).toList).filter
            (s.before.board.goesTo queue) := by rw [hnew, List.filter_congr hgoes]
      _ = steps.filterMap (Taken.collectedFrom? queue) ++ (s.before.board.waiting queue ++
            (s.before.pushes? s.move).toList.filter (s.before.board.goesTo queue)) := by
          rw [List.filter_append, h.order, List.append_assoc]
      _ = (steps ++ [s]).filterMap (Taken.collectedFrom? queue) ++
            c'.board.waiting queue := by
          rw [← hbalanced, List.filterMap_append, List.append_assoc]
          cases hfrom : Taken.collectedFrom? queue s <;> simp [hfrom]

variable {outside : σ → σ → Prop} {codec : Codec σ} {p : Preamble} {log : List Log.Entry}
  {order : Registry.Order} {steps : List (Taken σ ρ)}

/-- **Calls are collected in the order in which they are finished.**  The calls that have been
finished and go to a queue are those that have been collected from it, and then those that wait in
it, in the same order and each as often. -/
theorem delivered_in_order (walk : Walk outside (start codec p log order) steps c)
    (queue : QueueId) :
    (finishes (steps.flatMap Taken.events)).filter (c.board.goesTo queue) =
      steps.filterMap (Taken.collectedFrom? queue) ++ c.board.waiting queue := by
  have hledger : Ledger queue steps c := by
    induction walk with
    | start => exact ⟨fun id hid => absurd hid List.not_mem_nil, rfl⟩
    | step walk move hstep ih =>
        exact ih.step walk.holding walk.locked (effect_of_step walk.holding.readsReply hstep)
    | outside _ stream _ ih => exact ⟨ih.made, ih.order⟩
  exact hledger.order

end Client

end RemoteCalls
