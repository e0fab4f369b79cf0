import RemoteCalls.Client.Run
import RemoteCalls.Proofs.Client.SoleCall

/-!
# RemoteCalls.Proofs.Client.Schedule

One call, and then the end of the client, by the schedule in which each step of a
thread is followed by all that the receiver can do.

Queues that have room for one call are always in order, so this is one of the runs
of the client (`Underway`), and no step in it ends the process.
-/

namespace RemoteCalls

/-- A single call is in order. -/
theorem CompletionQueue.arrange_eq_self {q : CompletionQueue} (h : q.size ≤ 1) (p : CallId → Bool)
    (key : CallId → UInt64) : q.arrange p key = q := by
  obtain ⟨capacity, items⟩ := q
  rcases items with _ | ⟨id, _ | ⟨other, items⟩⟩
  · simp [arrange]
  · cases hp : p id <;> simp [arrange, hp]
  · simp [size] at h

namespace Board

variable {ρ : Type} {b : Board ρ}

/-- Every queue has room for one call at most. -/
def Narrow (b : Board ρ) : Prop := ∀ q ∈ b.queues, q.capacity ≤ 1

theorem Narrow.setQueue (h : b.Narrow) {queue : QueueId} {q q' : CompletionQueue}
    (hq : b.queue? queue = some q) (hcapacity : q'.capacity = q.capacity) :
    ({ b with queues := b.queues.set queue q' } : Board ρ).Narrow := by
  intro other hother
  obtain hold | rfl := List.mem_or_eq_of_mem_set hother
  · exact h other hold
  · exact hcapacity ▸ h q (List.mem_of_getElem? hq)

theorem Narrow.collect (h : b.Narrow) {b' : Board ρ} {queue : QueueId} {id : CallId}
    (hpop : b.pop? queue = some (id, b')) : b'.Narrow := by
  obtain ⟨q, items, hq, -, rfl⟩ := pop?_front hpop
  exact h.setQueue hq rfl

theorem Narrow.finish (h : b.Narrow) {b' : Board ρ} {id : CallId}
    (hfinish : b.finish id = .moved b') : b'.Narrow := by
  obtain ⟨call, queue, q, -, -, -, hq, -, rfl⟩ := finish_delivered hfinish
  exact h.setQueue hq rfl

/-- Nothing is put into another order. -/
theorem Narrow.arrange_eq (h : b.Narrow) (hstocked : b.Stocked) (p : CallId → Bool) :
    b.arrange p = b := by
  have hqueues (key : CallId → UInt64) : b.queues.map (·.arrange p key) = b.queues := by
    refine (List.map_congr_left fun q hq => ?_).trans (List.map_id _)
    exact q.arrange_eq_self (Nat.le_trans (hstocked.sized q hq) (h q hq)) p key
  rw [arrange, hqueues]

end Board

namespace Client

open Board

variable {σ ρ : Type}

/-! ## The run that a schedule is -/

/-- Whether a move begins neither a call nor a queue. -/
def Move.isOnward : Move ρ → Bool
  | .queue _ => false
  | .go _ _ => false
  | .call _ => false
  | _ => true

theorem Move.begins_of_isOnward {move : Move ρ} (h : move.isOnward = true) :
    move.begins = false := by
  cases move <;> first | rfl | contradiction

variable [ByteStream σ]

/-- No queue is made, and none gets more room. -/
theorem Effect.narrow {c c' : Client σ ρ} {move : Move ρ} (heffect : Effect c move c')
    (honward : move.isOnward = true) (h : c.board.Narrow) : c'.board.Narrow := by
  cases heffect with
  | queue => contradiction
  | alone halone => cases move <;> contradiction
  | go => contradiction
  | collect hpop => exact h.collect hpop
  | send _ _ hchange =>
      cases hchange with
      | finish hfinish => exact h.finish hfinish
      | collect _ hpop => exact h.collect hpop
      | _ => exact h
  | closing _ hchange => cases hchange <;> exact h
  | receive hchange =>
      generalize c.receiver = place at hchange
      cases hchange with
      | finish hfinish => exact h.finish hfinish
      | @terminate f id ids b hfinish =>
          have hset : (c.board.setError id (connectionLost f)).Narrow := h
          exact hset.finish hfinish
      | _ => exact h
  | _ => exact h

variable {codec : Codec σ} {p : Preamble} {log : List Log.Entry}
  {order : Registry.Order} {r : Request ρ} {steps : List (Taken σ ρ)} {c c' : Client σ ρ}

/-- A client that has begun one call, and the steps it was reached in. -/
structure Underway (c₀ : Client σ ρ) (r : Request ρ) (steps : List (Taken σ ρ))
    (c : Client σ ρ) : Prop where
  walk : Walk (fun _ _ => False) c₀ steps c
  sole : requests (steps.flatMap Taken.events) = [(0, r)]
  narrow : c.board.Narrow

namespace Underway

theorem custody (h : Underway (start codec p log order) r steps c) :
    c.Custody (steps.flatMap Taken.events) := by
  have hone := h.walk.run.registrations_le_one (by rw [h.sole]; exact Nat.le_refl 1)
  exact h.walk.run.custody (Nat.lt_of_le_of_lt hone (by decide))

theorem step (h : Underway (start codec p log order) r steps c) {move : Move ρ}
    (honward : move.isOnward = true) (hstep : c.step move = .moved c') :
    Underway (start codec p log order) r (steps ++ [⟨c, move⟩]) c' where
  walk := h.walk.step move hstep
  sole := by
    rw [List.flatMap_append, requests_append, h.sole, List.flatMap_singleton, Taken.events,
      requests_observe c (Move.begins_of_isOnward honward)]
    rfl
  narrow := (effect_of_step h.walk.holding.readsReply hstep).narrow honward h.narrow

/-- The calls that the end of the connection has finished are in order. -/
theorem arrangeLost_eq (h : Underway (start codec p log order) r steps c) : c.arrangeLost = c := by
  rw [arrangeLost, h.narrow.arrange_eq h.walk.stocked]

end Underway

/-- A computation comes to its end with a client that further steps lead to, and for which `Q`
holds. -/
def Leads (c₀ : Client σ ρ) (r : Request ρ) (steps : List (Taken σ ρ)) (Q : Client σ ρ → Prop)
    (x : Except Abort (Client σ ρ)) : Prop :=
  ∃ later c, x = .ok c ∧ Underway c₀ r (steps ++ later) c ∧ Q c

theorem Underway.leads {c₀ : Client σ ρ} {Q : Client σ ρ → Prop} (h : Underway c₀ r steps c)
    (hc : Q c) : Leads c₀ r steps Q (.ok c) :=
  ⟨[], c, rfl, by rwa [List.append_nil], hc⟩

/-- A step that has been taken before is one of the further steps. -/
theorem Leads.cons {c₀ : Client σ ρ} {Q : Client σ ρ → Prop} {x : Except Abort (Client σ ρ)}
    {s : Taken σ ρ} (h : Leads c₀ r (steps ++ [s]) Q x) : Leads c₀ r steps Q x := by
  obtain ⟨later, c, heq, hc, hQ⟩ := h
  exact ⟨s :: later, c, heq, by rwa [List.append_cons], hQ⟩

theorem Leads.bind {c₀ : Client σ ρ} {P Q : Client σ ρ → Prop} {x : Except Abort (Client σ ρ)}
    {f : Client σ ρ → Except Abort (Client σ ρ)} (h : Leads c₀ r steps P x)
    (hf : ∀ {steps c}, Underway c₀ r steps c → P c → Leads c₀ r steps Q (f c)) :
    Leads c₀ r steps Q (x >>= f) := by
  obtain ⟨later, c, rfl, hc, hP⟩ := h
  obtain ⟨more, c', heq, hc', hQ⟩ := hf hc hP
  exact ⟨later ++ more, c', heq, by rwa [← List.append_assoc], hQ⟩

/-- What the receiver keeps in each step, it keeps as long as it goes on. -/
def KeptByReceiver (c₀ : Client σ ρ) (r : Request ρ) (Q : Client σ ρ → Prop) : Prop :=
  ∀ {steps c c'}, Underway c₀ r steps c → Effect c .receive c' → Q c → Q c'

namespace Underway

variable {Q : Client σ ρ → Prop}

theorem runReceiver (hkept : KeptByReceiver (start codec p log order) r Q) (fuel : Nat)
    (h : Underway (start codec p log order) r steps c) (hc : Q c) :
    Leads (start codec p log order) r steps Q (c.runReceiver fuel) := by
  induction fuel generalizing steps c with
  | zero => exact h.leads hc
  | succ fuel ih =>
      rw [Client.runReceiver]
      cases hstep : c.stepReceiver with
      | blocked => exact h.leads hc
      | aborted cause => exact absurd hstep (h.custody.step_ne_aborted .receive cause)
      | moved c' =>
          have hmove : c.step .receive = .moved c' := hstep
          have heffect := effect_of_step h.walk.holding.readsReply hmove
          exact (ih (h.step rfl hmove) (hkept h heffect hc)).cons

theorem settle (hkept : KeptByReceiver (start codec p log order) r Q)
    (h : Underway (start codec p log order) r steps c) (hc : Q c) :
    Leads (start codec p log order) r steps Q c.settle := by
  refine (h.runReceiver hkept c.receiverSteps hc).bind fun hdone hQ => ?_
  rw [hdone.arrangeLost_eq]
  exact hdone.leads hQ

theorem keptByReceiver_true {c₀ : Client σ ρ} : KeptByReceiver c₀ r fun _ => True :=
  fun _ _ _ => trivial

theorem runTask (t : TaskId) (fuel : Nat) (h : Underway (start codec p log order) r steps c) :
    Leads (start codec p log order) r steps (fun _ => True) (c.runTask t fuel) := by
  induction fuel generalizing steps c with
  | zero => exact h.leads trivial
  | succ fuel ih =>
      rw [Client.runTask]
      cases hstep : c.stepTask t with
      | blocked => exact h.leads trivial
      | aborted cause => exact absurd hstep (h.custody.step_ne_aborted (.task t) cause)
      | moved c' =>
          have hmove : c.step (.task t) = .moved c' := hstep
          have hsettled := (h.step rfl hmove).settle keptByReceiver_true trivial
          exact (hsettled.bind fun hunderway _ => ih hunderway).cons

/-- Collecting a call lets the receiver go on. -/
theorem pop (queue : QueueId) (h : Underway (start codec p log order) r steps c) :
    ∃ later c' id, c.pop queue = .ok (c', id) ∧
      Underway (start codec p log order) r (steps ++ later) c' := by
  unfold Client.pop
  split
  case h_1 => exact ⟨[], c, none, rfl, by rwa [List.append_nil]⟩
  case h_2 id board hpop =>
    have hmove : c.step (.collect queue) = .moved { c with board } := by
      simp only [Client.step, hpop]
    obtain ⟨later, c', heq, hdone, -⟩ := (h.step rfl hmove).settle keptByReceiver_true trivial
    refine ⟨⟨c, .collect queue⟩ :: later, c', some id, ?_, by rwa [List.append_cons]⟩
    rw [heq]
    rfl

theorem drain (fuel : Nat) (h : Underway (start codec p log order) r steps c) :
    Leads (start codec p log order) r steps (fun _ => True) (c.drain fuel) := by
  induction fuel generalizing steps c with
  | zero => exact h.leads trivial
  | succ fuel ih =>
      rw [Client.drain]
      cases c.awaitedQueue? with
      | none => exact h.leads trivial
      | some queue =>
          obtain ⟨later, c', id, hpop, hpopped⟩ := h.pop queue
          obtain ⟨more, c'', heq, hdone⟩ := ih hpopped
          refine ⟨later ++ more, c'', ?_, by rwa [← List.append_assoc]⟩
          show (c.pop queue >>= fun popped => popped.1.drain fuel) = .ok c''
          rw [hpop]
          exact heq

/-- A client is dropped without the process being ended. -/
theorem drop (h : Underway (start codec p log order) r steps c) :
    Leads (start codec p log order) r steps (fun _ => True) c.drop := by
  have hmove : c.step (.close true) = .moved (c.beginClose true).1 := rfl
  refine Leads.cons (s := ⟨c, .close true⟩) ?_
  exact ((h.step rfl hmove).runTask c.tasks.length taskSteps).bind fun hclosing _ =>
    (hclosing.drain _).bind fun hdrained _ => hdrained.runTask c.tasks.length taskSteps

end Underway

/-! ## The write of the call -/

/-- A thread that has got the send lock is so many steps away from its write, and nothing can keep
it from that. -/
inductive Due (c : Client σ ρ) : Nat → SendPhase → Prop where
  | registering (havail : c.isAvailable = true) : Due c 2 .registering
  | addressing : Due c 1 .addressing
  | writing : Due c 0 .writing

/-- The thread `t` is so many steps away from writing to a connection for which `P` holds. -/
structure Approaches (P : σ → Prop) (t : TaskId) (n : Nat) (c : Client σ ρ) : Prop where
  task : ∃ id waits phase, c.tasks[t]? = some (.send id waits phase) ∧ Due c n phase
  stream : P c.codec.stream

section Approaches

variable {P : σ → Prop} {t : TaskId} {n : Nat}

omit [ByteStream σ] in
theorem Due.isInside {phase : SendPhase} (h : Due c n phase) (id : CallId) (waits : Bool) :
    (Task.send id waits phase).isInside = true := by
  cases h <;> rfl

/-- The receiver does not end registration while a thread has the send lock. -/
theorem Effect.isAvailable_of_receive (h : Effect c .receive c') (hlocked : c.Locked) {task : Task}
    (htask : c.tasks[t]? = some task) (hinside : task.isInside = true) :
    c'.isAvailable = c.isAvailable := by
  rw [isAvailable, isAvailable, Registry.isAvailable, Registry.isAvailable, h.closing_eq,
    h.shutdown_eq, hlocked.givesUp_eq_false htask hinside, Bool.or_false, Taken.passes,
    Bool.or_false]

/-- The receiver does not hold up the thread. -/
theorem Approaches.receive
    (hread : ∀ {s s' : σ} {count : Nat} {got : Bytes} {fault : Option Fault}, P s →
      ByteStream.read count s = .done s' got fault → P s')
    (h : Approaches P t n c) (hlocked : c.Locked) (heffect : Effect c .receive c') :
    Approaches P t n c' := by
  obtain ⟨⟨id, waits, phase, htask, hdue⟩, hstream⟩ := h
  have hlt := (List.getElem?_eq_some_iff.mp htask).1
  have htask' := (heffect.task_eq (by simp) hlt).trans htask
  refine ⟨⟨id, waits, phase, htask', ?_⟩, ?_⟩
  · cases hdue with
    | registering havail =>
        exact .registering ((heffect.isAvailable_of_receive hlocked htask rfl).trans havail)
    | addressing => exact .addressing
    | writing => exact .writing
  · obtain ⟨events, hchange⟩ := heffect.of_receive
    obtain hsame | ⟨stage, hstate⟩ := hchange.codec_eq
    · exact hsame ▸ hstream
    · rw [hstate, Codec.resume, Frame.Progress.state_map]
      exact Frame.resume_state hread c.codec.limit stage hstream

/-- The thread comes nearer with each of its steps. -/
theorem Approaches.step (h : Approaches P t (n + 1) c) (hlocked : c.Locked) :
    ∃ c', c.step (.task t) = .moved c' ∧ Approaches P t n c' := by
  obtain ⟨⟨id, waits, phase, htask, hdue⟩, hstream⟩ := h
  have hlt := (List.getElem?_eq_some_iff.mp htask).1
  obtain ⟨call, hcall⟩ := hlocked.exists_call htask
  cases hdue with
  | registering havail =>
      have hok : (c.board.register id).2.isOk = true :=
        isOk_register_iff.mpr (by simpa [isAvailable, Registry.isAvailable] using havail)
      have hstep : c.step (.task t) = .moved
          (setTask { c with board := (c.board.register id).1 } t (.send id waits .addressing)) := by
        simp only [Client.step, stepTask, htask, hcall, stepSend, hok, if_true]
      exact ⟨_, hstep, ⟨id, waits, _, List.getElem?_set_self hlt, .addressing⟩, hstream⟩
  | addressing =>
      have hstep : c.step (.task t) = .moved
          (setTask { c with header := requestHeader call } t (.send id waits .writing)) := by
        simp only [Client.step, stepTask, htask, hcall, stepSend]
      exact ⟨_, hstep, ⟨id, waits, _, List.getElem?_set_self hlt, .writing⟩, hstream⟩

/-- The thread writes when it has come there. -/
theorem Approaches.write (h : Approaches P t 0 c) (hlocked : c.Locked) :
    (∃ id waits, c.tasks[t]? = some (.send id waits .writing)) ∧
      ∃ c', c.step (.task t) = .moved c' := by
  obtain ⟨⟨id, waits, phase, htask, hdue⟩, -⟩ := h
  obtain ⟨call, hcall⟩ := hlocked.exists_call htask
  cases hdue
  refine ⟨⟨id, waits, htask⟩, ?_⟩
  simp only [Client.step, stepTask, htask, hcall, stepSend]
  rcases c.writeRequest call with ⟨after, _ | f⟩ <;> exact ⟨_, rfl⟩

theorem runTask_of_step (h : c.step (.task t) = .moved c') (fuel : Nat) :
    c.runTask t (fuel + 1) = c'.settle >>= runTask t fuel := by
  have hstep : c.stepTask t = .moved c' := h
  rw [runTask, hstep]

/-- A step in which the thread `t` writes its request, to a connection for which `P` holds. -/
structure Taken.Writes (P : σ → Prop) (t : TaskId) (s : Taken σ ρ) : Prop where
  move : s.move = .task t
  task : ∃ id waits, s.before.tasks[t]? = some (.send id waits .writing)
  stream : P s.before.codec.stream

/-- What has been taken of the request when it has been written. -/
theorem Underway.taken_of_writes (u : Uptake σ) (hlimit : codec.limit < Ty.countLimit)
    (h : Underway (start codec p log order) r steps c) {s : Taken σ ρ} (hs : s ∈ steps)
    (hwrites : s.Writes P t) {m : Message} (hm : r.IsFirst m) (hfits : m.Fits codec.limit) :
    ∃ transfer : Transfer, transfer.message = m ∧
      transfer.fault = (ByteStream.write m.encode s.before.codec.stream).2 ∧
      u.taken c.codec.stream = u.taken codec.stream ++ transfer.taken := by
  obtain ⟨id, waits, htask⟩ := hwrites.task
  have hsole : requests (steps.flatMap Taken.events) <+: [(0, r)] := h.sole ▸ List.prefix_rfl
  have hhanded := h.walk.handed?_of_sole hsole hs hwrites.move htask hm hfits
  have hmem : _ ∈ steps.filterMap Taken.handed? := List.mem_filterMap.mpr ⟨s, hs, hhanded⟩
  obtain ⟨hnone, -⟩ | ⟨transfer, -, -, hone, htaken⟩ :=
    h.walk.taken_of_sole u hlimit (fun _ _ => False.elim) hsole
  · rw [hnone] at hmem
    contradiction
  · rw [hone, List.mem_singleton] at hmem
    obtain ⟨hsame, hfault⟩ := Prod.mk.inj hmem
    exact ⟨transfer, hsame.symm, hfault.symm, htaken⟩

variable
  (hread : ∀ {s s' : σ} {count : Nat} {got : Bytes} {fault : Option Fault}, P s →
    ByteStream.read count s = .done s' got fault → P s')
include hread

/-- Whatever the receiver does in between, the thread writes its request. -/
theorem Underway.runTask_writes (h : Underway (start codec p log order) r steps c)
    (hc : Approaches P t n c) (fuel : Nat) :
    ∃ later c', c.runTask t (fuel + n + 1) = .ok c' ∧
      Underway (start codec p log order) r (steps ++ later) c' ∧ ∃ s ∈ later, s.Writes P t := by
  have hkept {n : Nat} : KeptByReceiver (start codec p log order) r (Approaches P t n) :=
    fun hunderway heffect hc => hc.receive hread hunderway.walk.locked heffect
  induction n generalizing steps c with
  | zero =>
      -- This is the step that writes; whatever follows only has to come to its end.
      obtain ⟨htask, c', hstep⟩ := hc.write h.walk.locked
      obtain ⟨later, c'', heq, hdone, -⟩ :=
        ((h.step rfl hstep).settle keptByReceiver_true trivial).bind fun hsettled _ =>
          hsettled.runTask t fuel
      exact ⟨⟨c, .task t⟩ :: later, c'', (runTask_of_step hstep fuel).trans heq,
        by rwa [List.append_cons], _, List.mem_cons_self, rfl, htask, hc.stream⟩
  | succ n ih =>
      obtain ⟨c₁, hstep, hcloser⟩ := hc.step h.walk.locked
      obtain ⟨settling, c₂, hsettle, hunderway, hc₂⟩ := (h.step rfl hstep).settle hkept hcloser
      obtain ⟨later, c', heq, hdone, s, hs, hwrites⟩ := ih hunderway hc₂
      refine ⟨⟨c, .task t⟩ :: (settling ++ later), c', ?_, ?_, s, ?_, hwrites⟩
      · rw [← Nat.add_assoc, runTask_of_step hstep, hsettle]
        exact heq
      · rw [List.append_cons, ← List.append_assoc]
        exact hdone
      · exact List.mem_cons_of_mem _ (List.mem_append_right _ hs)

/-- **A call is made, and its request is written.**  Making a call does not end the process, and in
one of its steps its thread writes, to a connection for which all still holds that reads keep. -/
theorem call_writes (codec : Codec σ) (p : Preamble) (log : List Log.Entry)
    (order : Registry.Order) (r : Request ρ) (hstream : P codec.stream) :
    ∃ steps c answer, (start codec p log order).call r = .ok (c, answer) ∧
      Underway (start codec p log order) r steps c ∧ ∃ s ∈ steps, s.Writes P 0 := by
  let c₀ : Client σ ρ := start codec p log order
  let c₁ := (beginSend { c₀ with board := (c₀.board.addQueue 1).1 } r 0 true).1
  have hbegin : Underway c₀ r [⟨c₀, .call r⟩] c₁ := by
    refine ⟨Walk.start.step (.call r) rfl, rfl, fun q hq => ?_⟩
    obtain rfl := List.mem_singleton.mp hq
    exact Nat.le_refl 1
  -- From here on the thread has the send lock, which keeps the receiver from ending registration.
  let c₂ := setTask { c₁ with lock := some (.task 0) } 0 (.send 0 true .registering)
  have hstep : c₁.step (.task 0) = .moved c₂ := rfl
  have hc₂ : Approaches P 0 2 c₂ := ⟨⟨0, true, _, rfl, .registering rfl⟩, hstream⟩
  have hkept : KeptByReceiver c₀ r (Approaches P 0 2) :=
    fun hunderway heffect hc => hc.receive hread hunderway.walk.locked heffect
  obtain ⟨settling, c₃, hsettle, hunderway, hc₃⟩ := (hbegin.step rfl hstep).settle hkept hc₂
  obtain ⟨later, c, heq, hdone, s, hs, hwrites⟩ := hunderway.runTask_writes hread hc₃ 6
  have hcomplete : c₁.complete 0 = .ok c := by
    rw [complete, taskSteps, runTask_of_step hstep, hsettle]
    exact heq
  have hanswer : ∃ answer, c₀.call r = .ok (c, answer) := by
    simp only [Client.call]
    show ∃ answer, (c₁.complete 0 >>= _) = _
    rw [hcomplete]
    simp only [bind, Except.bind]
    split <;> exact ⟨_, rfl⟩
  obtain ⟨answer, hanswer⟩ := hanswer
  exact ⟨_, c, answer, hanswer, hdone, s, List.mem_append_right _ hs, hwrites⟩

end Approaches

end Client

end RemoteCalls
