import Mathlib.Data.List.Nodup
import RemoteCalls.Proofs.Client.Custody

/-!
# RemoteCalls.Proofs.Client.Turns

Threads send their requests one at a time.

`Records` says that the calls on the board are what the history says of them:
what they ask for, and the numbers they are registered under.  `Turns` adds where
each thread stands: only one of them is past the send lock, its call is the last
that was registered, and the header is its own from the moment it is filled in.
-/

namespace RemoteCalls

/-! ## Threads and the send lock -/

/-- The call that a task sends. -/
def Task.own : Task → Option CallId
  | .send id _ _ => some id
  | .close _ _ => none

/-- Whether a task holds the send lock. -/
def Task.isInside : Task → Bool
  | .send _ _ .entering => false
  | .send _ _ .collecting => false
  | .send _ _ (.returned _) => false
  | .send _ _ _ => true
  | .close _ _ => false

/-- Whether the receiver holds the send lock. -/
def Receiver.isInside : Receiver → Bool
  | .taking _ => true
  | .terminating _ _ => true
  | .unlocking => true
  | _ => false

@[simp] theorem Receiver.isInside_afterCall (fault : Option Fault) :
    (Client.afterCall fault).isInside = false := by
  cases fault <;> rfl

/-- What a request asks for. -/
def Request.asked {ρ : Type} (r : Request ρ) :
    Bytes × Bytes × Option BodyWriter × Option (BodyReader ρ) :=
  (r.service, r.method, r.args, r.reader)

/-- What a call asks for. -/
def Call.asked {ρ : Type} (call : Call ρ) :
    Bytes × Bytes × Option BodyWriter × Option (BodyReader ρ) :=
  (call.service, call.method, call.args, call.reader)

/-- What a call asks for, and the number it is registered under. -/
def Call.label {ρ : Type} (call : Call ρ) :
    (Bytes × Bytes × Option BodyWriter × Option (BodyReader ρ)) × UInt64 :=
  (call.asked, call.seq)

namespace Client

open Board

variable {σ ρ : Type}

/-! ## The send lock -/

/-- Every call is sent by one thread, and whoever is past the send lock holds it. -/
structure Locked (c : Client σ ρ) : Prop where
  owners : c.tasks.filterMap Task.own = List.range c.board.calls.length
  holder : ∀ t, c.lock = some (.task t) ↔ (c.tasks[t]?).any Task.isInside = true
  receiver : c.lock = some .receiver ↔ c.receiver.isInside = true

section Locked

variable {c c' c₁ : Client σ ρ} {t t' : TaskId}

/-- The lock is free if neither a thread nor the receiver holds it. -/
theorem Locked.lock_eq_none (h : c.Locked) (hlock : ∀ t, c.lock ≠ some (.task t))
    (hout : c.receiver.isInside = false) : c.lock = none := by
  cases hholder : c.lock with
  | none => rfl
  | some holder =>
      cases holder with
      | task t => exact absurd hholder (hlock t)
      | receiver =>
          rw [h.receiver.mp hholder] at hout
          contradiction

/-- A task past the send lock holds it. -/
theorem Locked.lock_eq (h : c.Locked) {task : Task} (htask : c.tasks[t]? = some task)
    (hinside : task.isInside = true) : c.lock = some (.task t) :=
  (h.holder t).mpr (by rw [htask, Option.any_some, hinside])

/-- Only the holder of the send lock is past it. -/
theorem Locked.outside_of_ne (h : c.Locked) {task task' : Task} (htask : c.tasks[t]? = some task)
    (hinside : task.isInside = true) (htask' : c.tasks[t']? = some task') (hne : t ≠ t') :
    task'.isInside = false := by
  refine Bool.not_eq_true _ ▸ fun hinside' => ?_
  have hlock := h.lock_eq htask' hinside'
  rw [h.lock_eq htask hinside, Option.some.injEq, Holder.task.injEq] at hlock
  exact hne hlock

/-- Two threads send different calls. -/
theorem Locked.own_ne (h : c.Locked) {task task' : Task} {id id' : CallId}
    (htask : c.tasks[t]? = some task) (hown : task.own = some id)
    (htask' : c.tasks[t']? = some task') (hown' : task'.own = some id') (hne : t ≠ t') :
    id ≠ id' := by
  have hnodup : (c.tasks.filterMap Task.own).Pairwise (· ≠ ·) := h.owners ▸ List.nodup_range
  rw [List.pairwise_filterMap] at hnodup
  have hapart := List.pairwise_iff_getElem.mp hnodup
  obtain ⟨hlt, rfl⟩ := List.getElem?_eq_some_iff.mp htask
  obtain ⟨hlt', rfl⟩ := List.getElem?_eq_some_iff.mp htask'
  rcases Nat.lt_or_gt_of_ne hne with hless | hmore
  · exact hapart t t' hlt hlt' hless id hown id' hown'
  · exact (hapart t' t hlt' hlt hmore id' hown' id hown).symm

/-- A step in which no task goes on. -/
theorem Locked.keep (h : c.Locked) (htasks : c'.tasks = c.tasks) (hlock : c'.lock = c.lock)
    (hinside : c'.receiver.isInside = c.receiver.isInside)
    (hlen : c'.board.calls.length = c.board.calls.length) : c'.Locked := by
  refine ⟨?_, ?_, ?_⟩
  · rw [htasks, hlen]
    exact h.owners
  · rw [htasks, hlock]
    exact h.holder
  · rw [hlock, hinside]
    exact h.receiver

/-- A task that goes on: what is to be shown of it and of the lock. -/
theorem Locked.advance (h : c.Locked) {old next : Task} (htask : c.tasks[t]? = some old)
    (hown : next.own = old.own) (htasks : c₁.tasks = c.tasks)
    (hreceiver : c₁.receiver = c.receiver) (hlen : c₁.board.calls.length = c.board.calls.length)
    (hmine : c₁.lock = some (.task t) ↔ next.isInside = true)
    (htheirs : ∀ holder, holder ≠ .task t → (c₁.lock = some holder ↔ c.lock = some holder)) :
    (c₁.setTask t next).Locked := by
  have hlt := (List.getElem?_eq_some_iff.mp htask).1
  refine ⟨?_, fun t' => ?_, ?_⟩
  · obtain ⟨before, after, hall, hset⟩ := setTask_split (c := c₁) (htasks ▸ htask)
    have howners := h.owners
    rw [← htasks, hall, ← hlen] at howners
    rw [hset]
    simpa [List.filterMap_append, List.filterMap_cons, hown] using howners
  · by_cases hsame : t = t'
    · subst hsame
      simpa [setTask, htasks, hlt] using hmine
    · have hne : Holder.task t' ≠ .task t := by simpa using Ne.symm hsame
      simp only [setTask, htasks, List.getElem?_set_ne hsame, ← h.holder]
      exact htheirs _ hne
  · rw [setTask_receiver, hreceiver, ← h.receiver]
    exact htheirs .receiver (by simp)

/-- A task that goes on and holds the send lock as it did before. -/
theorem Locked.proceed (h : c.Locked) {old next : Task} (htask : c.tasks[t]? = some old)
    (hown : next.own = old.own) (hinside : next.isInside = old.isInside)
    (htasks : c₁.tasks = c.tasks) (hreceiver : c₁.receiver = c.receiver)
    (hlock : c₁.lock = c.lock) (hlen : c₁.board.calls.length = c.board.calls.length) :
    (c₁.setTask t next).Locked := by
  refine h.advance htask hown htasks hreceiver hlen ?_ fun holder _ => by rw [hlock]
  rw [hlock, h.holder, htask, hinside]
  simp

/-- A task that is begun does not hold the send lock. -/
theorem Locked.extend (h : c.Locked) {task : Task} (hout : task.isInside = false)
    (htasks : c'.tasks = c.tasks ++ [task]) (hlock : c'.lock = c.lock)
    (hreceiver : c'.receiver = c.receiver)
    (howners : List.range c'.board.calls.length =
      List.range c.board.calls.length ++ task.own.toList) : c'.Locked := by
  refine ⟨?_, fun t => ?_, ?_⟩
  · rw [htasks, List.filterMap_append, h.owners, howners, List.filterMap_cons, List.filterMap_nil]
    cases task.own <;> rfl
  · rw [hlock, h.holder, htasks, List.getElem?_append]
    split
    case isTrue => rfl
    case isFalse hlast =>
      rw [List.getElem?_eq_none (Nat.not_lt.mp hlast), List.getElem?_singleton]
      split <;> simp [hout]
  · rw [hlock, hreceiver]
    exact h.receiver

end Locked

/-! ## The board and its history -/

/-- The calls on the board are what the history says of them. -/
structure Records (events : List (Event ρ)) (b : Board ρ) : Prop where
  /-- Numbers are handed out in order. -/
  counts : (registrations events).map (·.2.toNat) = List.range' 1 (registrations events).length
  /-- No call is registered twice. -/
  once : ((registrations events).map (·.1)).Nodup
  known : ∀ e ∈ registrations events, (b.call? e.1).map (·.seq) = some e.2
  asked : ∀ e ∈ requests events, (b.call? e.1).map Call.asked = some e.2.asked
  inFlight : ∀ e ∈ b.registry.pending, (e.2, e.1) ∈ registrations events

section Records

variable {events new : List (Event ρ)} {b b' : Board ρ}

theorem records_start : Records [] ({} : Board ρ) := by
  refine ⟨rfl, List.nodup_nil, ?_, ?_, ?_⟩ <;> simp [registrations, requests]

/-- No number is given to two calls. -/
theorem Records.nodup_numbers (h : Records events b) : ((registrations events).map (·.2)).Nodup := by
  refine List.Nodup.of_map UInt64.toNat ?_
  rw [List.map_map, Function.comp_def, h.counts]
  exact List.nodup_range'

theorem map_label_call? (h : b'.calls.map Call.label = b.calls.map Call.label) (id : CallId) :
    (b'.call? id).map Call.label = (b.call? id).map Call.label := by
  simpa [call?] using congrArg (·[id]?) h

/-- A step that leaves what calls ask for and their numbers, and registers none. -/
theorem Records.keep (h : Records events b)
    (hnew : requests new = [] ∧ registrations new = [])
    (hlabels : b'.calls.map Call.label = b.calls.map Call.label)
    (hpending : ∀ e ∈ b'.registry.pending, e ∈ b.registry.pending) :
    Records (events ++ new) b' := by
  obtain ⟨hbegun, hregistered⟩ := hnew
  have hsame : registrations (events ++ new) = registrations events := by
    rw [registrations_append, hregistered, List.append_nil]
  refine ⟨hsame ▸ h.counts, hsame ▸ h.once, ?_, ?_, ?_⟩
  · intro e he
    have hlabel := congrArg (Option.map Prod.snd) (map_label_call? hlabels e.1)
    simp only [Option.map_map, Function.comp_def, Call.label] at hlabel
    exact hlabel.trans (h.known e (hsame ▸ he))
  · intro e he
    rw [requests_append, hbegun, List.append_nil] at he
    have hlabel := congrArg (Option.map Prod.fst) (map_label_call? hlabels e.1)
    simp only [Option.map_map, Function.comp_def, Call.label] at hlabel
    exact hlabel.trans (h.asked e he)
  · intro e he
    exact hsame ▸ h.inFlight e (hpending e he)

/-- A call that is registered gets the next number. -/
theorem Records.register (h : Records events b)
    (hnumbers : b.registry.Numbered (registrations events).length) {id : CallId} {call : Call ρ}
    (hcall : b.call? id = some call) (honce : id ∉ (registrations events).map (·.1)) :
    Records (events ++ [.registered id b.registry.nextSeq]) (b.registered id) := by
  have hnew : registrations (events ++ [Event.registered id b.registry.nextSeq]) =
      registrations events ++ [(id, b.registry.nextSeq)] := by
    rw [registrations_append]
    rfl
  refine ⟨?_, ?_, ?_, ?_, ?_⟩
  · rw [hnew, List.map_append, h.counts, List.length_append, List.map_singleton,
      List.length_singleton, ← List.range'_append_1, hnumbers.next]
    simp [Nat.add_comm]
  · rw [hnew, List.map_append, List.nodup_append]
    refine ⟨h.once, List.nodup_singleton _, ?_⟩
    intro other hother last hlast heq
    rw [heq, List.mem_singleton.mp hlast] at hother
    exact honce hother
  · intro e he
    rw [hnew, List.mem_append, List.mem_singleton] at he
    rw [call?_registered]
    cases he with
    | inl hold =>
        have hne : id ≠ e.1 := fun heq => honce (heq ▸ List.mem_map_of_mem hold)
        rw [if_neg hne]
        exact h.known e hold
    | inr hlast => simp [hlast, hcall]
  · intro e he
    have hold : e ∈ requests events := by simpa [requests] using he
    have hasked := h.asked e hold
    rw [call?_registered]
    by_cases hsame : id = e.1
    · rw [if_pos hsame, Option.map_map]
      exact hasked
    · rw [if_neg hsame]
      exact hasked
  · intro e he
    rw [registry_registered, Registry.filed, List.mem_append, List.mem_singleton] at he
    rw [hnew, List.mem_append]
    cases he with
    | inl hold => exact .inl (h.inFlight e hold)
    | inr hlast => exact .inr (by simp [hlast])

/-- A call that is begun asks for what it was begun with. -/
theorem Records.begin (h : Records events b) {queues : List CompletionQueue} (r : Request ρ)
    (queue : QueueId) :
    Records (events ++ [.begun b.calls.length r])
      (addCall { b with queues } (r.toCall queue)).1 := by
  have hsame : registrations (events ++ [Event.begun b.calls.length r]) = registrations events := by
    simp [registrations]
  have hold {β : Type} {g : Call ρ → β} {id : CallId} {x : β} (hid : (b.call? id).map g = some x) :
      ((addCall { b with queues } (r.toCall queue)).1.call? id).map g = some x := by
    obtain ⟨call, hcall, -⟩ := Option.map_eq_some_iff.mp hid
    have hlt := (List.getElem?_eq_some_iff.mp hcall).1
    have hkept : (addCall { b with queues } (r.toCall queue)).1.call? id = b.call? id :=
      List.getElem?_append_left hlt
    rw [hkept, hid]
  refine ⟨hsame ▸ h.counts, hsame ▸ h.once, ?_, ?_, ?_⟩
  · intro e he
    exact hold (h.known e (hsame ▸ he))
  · intro e he
    have hnew : requests (events ++ [Event.begun b.calls.length r]) =
        requests events ++ [(b.calls.length, r)] := by
      rw [requests_append]
      rfl
    rw [hnew, List.mem_append, List.mem_singleton] at he
    cases he with
    | inl hbefore => exact hold (h.asked e hbefore)
    | inr hlast =>
        rw [hlast]
        simp [addCall, call?, Request.toCall, Call.asked, Request.asked]
  · exact hsame ▸ h.inFlight

end Records

/-! ## Where threads stand -/

/-- The call is the last that was registered. -/
def Current (events : List (Event ρ)) (b : Board ρ) (id : CallId) (call : Call ρ) : Prop :=
  b.call? id = some call ∧ ∃ earlier, registrations events = earlier ++ [(id, call.seq)]

/-- What holds where a task stands. -/
def Ready (events : List (Event ρ)) (b : Board ρ) (header : Header) : Task → Prop
  | .send id _ .entering => id ∉ (registrations events).map (·.1)
  | .send id _ .registering => id ∉ (registrations events).map (·.1)
  | .send id _ .addressing => ∃ call, Current events b id call
  | .send id _ .writing => ∃ call, Current events b id call ∧ header = requestHeader call
  | .send id _ (.withdrawing _) =>
      .unsent id ∈ events ∧ ∃ call, Current events b id call ∧ header = requestHeader call
  | .send id _ (.finishing other) =>
      other = id ∧ (id ∉ (registrations events).map (·.1) ∨ .unsent id ∈ events)
  | _ => True

/-- At most one thread is past the send lock, and every thread is ready for its next step. -/
structure Turns (events : List (Event ρ)) (c : Client σ ρ) : Prop where
  records : Records events c.board
  owners : c.tasks.filterMap Task.own = List.range c.board.calls.length
  holder : ∀ t, c.lock = some (.task t) ↔ (c.tasks[t]?).any Task.isInside = true
  receiver : c.lock = some .receiver ↔ c.receiver.isInside = true
  ready : ∀ task ∈ c.tasks, Ready events c.board c.header task

section Ready

variable {events new : List (Event ρ)} {b b' : Board ρ} {header : Header}

/-- The label of a call is all that its header is made of. -/
theorem requestHeader_eq_of_label {call call' : Call ρ} (h : call'.label = call.label) :
    requestHeader call' = requestHeader call := by
  simp only [Call.label, Call.asked, Prod.mk.injEq] at h
  simp [requestHeader, h]

/-- Calls may have been added to a board, but none has got another label. -/
def Grows (b b' : Board ρ) : Prop :=
  ∀ id call, b.call? id = some call → ∃ call', b'.call? id = some call' ∧ call'.label = call.label

theorem grows_of_labels (h : b'.calls.map Call.label = b.calls.map Call.label) : Grows b b' := by
  intro id call hcall
  have hlabel := map_label_call? h id
  rwa [hcall, Option.map_some, Option.map_eq_some_iff] at hlabel

theorem grows_addCall (b : Board ρ) (queues : List CompletionQueue) (call : Call ρ) :
    Grows b (addCall { b with queues } call).1 := by
  intro id call' hcall
  have hlt := (List.getElem?_eq_some_iff.mp hcall).1
  exact ⟨call', (List.getElem?_append_left hlt).trans hcall, rfl⟩

theorem Current.keep {id : CallId} {call : Call ρ} (h : Current events b id call)
    (hnew : registrations new = []) (hgrows : Grows b b') :
    ∃ call', Current (events ++ new) b' id call' ∧ call'.label = call.label := by
  obtain ⟨hcall, earlier, hlast⟩ := h
  obtain ⟨call', hcall', heq⟩ := hgrows id call hcall
  have hseq : call'.seq = call.seq := congrArg Prod.snd heq
  refine ⟨call', ⟨hcall', earlier, ?_⟩, heq⟩
  rw [registrations_append, hnew, List.append_nil, hseq, hlast]

theorem Ready.keep {task : Task} (h : Ready events b header task)
    (hnew : registrations new = []) (hgrows : Grows b b') :
    Ready (events ++ new) b' header task := by
  have hsame : registrations (events ++ new) = registrations events := by
    rw [registrations_append, hnew, List.append_nil]
  cases task with
  | close drops phase => trivial
  | send id waits phase =>
      cases phase with
      | entering =>
          rw [Ready, hsame]
          exact h
      | registering =>
          rw [Ready, hsame]
          exact h
      | addressing =>
          obtain ⟨call, hcall⟩ := h
          obtain ⟨call', hcall', -⟩ := hcall.keep hnew hgrows
          exact ⟨call', hcall'⟩
      | writing =>
          obtain ⟨call, hcall, hheader⟩ := h
          obtain ⟨call', hcall', hlabel⟩ := hcall.keep hnew hgrows
          exact ⟨call', hcall', hheader.trans (requestHeader_eq_of_label hlabel).symm⟩
      | withdrawing f =>
          obtain ⟨hunsent, call, hcall, hheader⟩ := h
          obtain ⟨call', hcall', hlabel⟩ := hcall.keep hnew hgrows
          exact ⟨List.mem_append_left _ hunsent, call', hcall',
            hheader.trans (requestHeader_eq_of_label hlabel).symm⟩
      | finishing other =>
          obtain ⟨hother, hwhy⟩ := h
          exact ⟨hother, hwhy.imp (fun hnot => hsame ▸ hnot) (List.mem_append_left _)⟩
      | _ => trivial

/-- A task that does not hold the send lock is only ready if its call is not registered yet, should
it be about to enter. -/
theorem Ready.of_outside {task : Task} (hout : task.isInside = false)
    (hentering : ∀ id waits, task = .send id waits .entering →
      id ∉ (registrations events).map (·.1)) : Ready events b header task := by
  cases task with
  | close drops phase => trivial
  | send id waits phase =>
      cases phase with
      | entering => exact hentering id waits rfl
      | collecting => trivial
      | returned collected => trivial
      | _ => contradiction

end Ready

section Turns

variable {events new : List (Event ρ)} {c c' c₁ : Client σ ρ}

theorem turns_start (codec : Codec σ) (p : Preamble) (log : List Log.Entry)
    (order : Registry.Order) :
    Turns [] (start codec p log order : Client σ ρ) where
  records := records_start
  owners := rfl
  holder := by simp [start]
  receiver := by simp [start, Receiver.isInside]
  ready := by simp [start]

theorem Turns.locked (h : c.Turns events) : c.Locked := ⟨h.owners, h.holder, h.receiver⟩

/-- A step in which no task goes on. -/
theorem Turns.keep (h : c.Turns events) (hnew : requests new = [] ∧ registrations new = [])
    (htasks : c'.tasks = c.tasks) (hlock : c'.lock = c.lock) (hheader : c'.header = c.header)
    (hinside : c'.receiver.isInside = c.receiver.isInside)
    (hlabels : c'.board.calls.map Call.label = c.board.calls.map Call.label)
    (hpending : ∀ e ∈ c'.board.registry.pending, e ∈ c.board.registry.pending) :
    c'.Turns (events ++ new) := by
  have hlen : c'.board.calls.length = c.board.calls.length := by
    simpa using congrArg List.length hlabels
  have hlocked := h.locked.keep htasks hlock hinside hlen
  refine ⟨h.records.keep hnew hlabels hpending, hlocked.owners, hlocked.holder, hlocked.receiver, ?_⟩
  rw [htasks, hheader]
  exact fun task htask => (h.ready task htask).keep hnew.2 (grows_of_labels hlabels)

/-- The lock is free if neither a thread nor the receiver holds it. -/
theorem Turns.lock_eq_none (h : c.Turns events) (hlock : ∀ t, c.lock ≠ some (.task t))
    (hout : c.receiver.isInside = false) : c.lock = none :=
  h.locked.lock_eq_none hlock hout

/-- A task past the send lock holds it. -/
theorem Turns.lock_eq (h : c.Turns events) {t : TaskId} {task : Task}
    (htask : c.tasks[t]? = some task) (hinside : task.isInside = true) :
    c.lock = some (.task t) :=
  h.locked.lock_eq htask hinside

/-- Only the holder of the send lock is past it. -/
theorem Turns.outside_of_ne (h : c.Turns events) {t t' : TaskId} {task task' : Task}
    (htask : c.tasks[t]? = some task) (hinside : task.isInside = true)
    (htask' : c.tasks[t']? = some task') (hne : t ≠ t') : task'.isInside = false :=
  h.locked.outside_of_ne htask hinside htask' hne

/-- Two threads send different calls. -/
theorem Turns.own_ne (h : c.Turns events) {t t' : TaskId} {task task' : Task} {id id' : CallId}
    (htask : c.tasks[t]? = some task) (hown : task.own = some id)
    (htask' : c.tasks[t']? = some task') (hown' : task'.own = some id') (hne : t ≠ t') :
    id ≠ id' :=
  h.locked.own_ne htask hown htask' hown' hne

/-- A task that goes on: what is to be shown of it, of the lock, and of the other tasks. -/
theorem Turns.advance (h : c.Turns events) {t : TaskId} {old next : Task}
    (htask : c.tasks[t]? = some old) (hown : next.own = old.own) (htasks : c₁.tasks = c.tasks)
    (hreceiver : c₁.receiver = c.receiver) (hlen : c₁.board.calls.length = c.board.calls.length)
    (hmine : c₁.lock = some (.task t) ↔ next.isInside = true)
    (htheirs : ∀ holder, holder ≠ .task t → (c₁.lock = some holder ↔ c.lock = some holder))
    (hrecords : Records (events ++ new) c₁.board)
    (hready : Ready (events ++ new) c₁.board c₁.header next)
    (hothers : ∀ t' task, c.tasks[t']? = some task → t ≠ t' →
      Ready (events ++ new) c₁.board c₁.header task) :
    (c₁.setTask t next).Turns (events ++ new) := by
  have hlt := (List.getElem?_eq_some_iff.mp htask).1
  have hget (t' : TaskId) : (c₁.setTask t next).tasks[t']? =
      if t = t' then some next else c.tasks[t']? := by
    simp only [setTask, htasks, List.getElem?_set, hlt, if_true]
  have hlocked := h.locked.advance htask hown htasks hreceiver hlen hmine htheirs
  refine ⟨hrecords, hlocked.owners, hlocked.holder, hlocked.receiver, fun task hmem => ?_⟩
  obtain ⟨t', hmem⟩ := List.mem_iff_getElem?.mp hmem
  rw [hget] at hmem
  by_cases hsame : t = t'
  · rw [if_pos hsame] at hmem
    obtain rfl := Option.some.inj hmem
    exact hready
  · rw [if_neg hsame] at hmem
    exact hothers t' task hmem hsame

/-- The other tasks are ready whatever the holder of the send lock does, unless it registers a call
of theirs. -/
theorem Turns.others (h : c.Turns events) {t : TaskId} {old : Task} {id : CallId}
    (htask : c.tasks[t]? = some old) (hinside : old.isInside = true) (hown : old.own = some id)
    (hnew : ∀ e ∈ registrations new, e.1 = id) (b : Board ρ) (header : Header) :
    ∀ t' task, c.tasks[t']? = some task → t ≠ t' → Ready (events ++ new) b header task := by
  intro t' task htask' hne
  refine Ready.of_outside (h.outside_of_ne htask hinside htask' hne) ?_
  rintro id' waits rfl
  have hbefore : id' ∉ (registrations events).map (·.1) := h.ready _ (List.mem_of_getElem? htask')
  have hapart := h.own_ne htask hown htask' rfl hne
  rw [registrations_append, List.map_append, List.mem_append, not_or]
  refine ⟨hbefore, fun hmem => ?_⟩
  obtain ⟨e, he, heq⟩ := List.mem_map.mp hmem
  exact hapart ((hnew e he).symm.trans heq)

/-- A task that goes on and holds the send lock as it did before, in a step that registers no call
and leaves the header. -/
theorem Turns.proceed (h : c.Turns events) {t : TaskId} {old next : Task}
    (htask : c.tasks[t]? = some old) (hown : next.own = old.own)
    (hinside : next.isInside = old.isInside) (htasks : c₁.tasks = c.tasks)
    (hreceiver : c₁.receiver = c.receiver) (hlock : c₁.lock = c.lock)
    (hheader : c₁.header = c.header) (hnew : requests new = [] ∧ registrations new = [])
    (hlabels : c₁.board.calls.map Call.label = c.board.calls.map Call.label)
    (hpending : ∀ e ∈ c₁.board.registry.pending, e ∈ c.board.registry.pending)
    (hready : Ready (events ++ new) c₁.board c₁.header next) :
    (c₁.setTask t next).Turns (events ++ new) := by
  have hlen : c₁.board.calls.length = c.board.calls.length := by
    simpa using congrArg List.length hlabels
  refine h.advance htask hown htasks hreceiver hlen ?_ (fun holder _ => by rw [hlock])
    (h.records.keep hnew hlabels hpending) hready fun t' task hmem _ => ?_
  · rw [hlock, h.holder, htask, hinside]
    simp
  · rw [hheader]
    exact (h.ready task (List.mem_of_getElem? hmem)).keep hnew.2 (grows_of_labels hlabels)

end Turns

/-! ## Every step -/

section Steps

variable {events new : List (Event ρ)} {c c' : Client σ ρ}

theorem label_setError (b : Board ρ) (id : CallId) (status : Status) :
    (b.setError id status).calls.map Call.label = b.calls.map Call.label :=
  map_calls_modifyCall (f := fun call => { call with error := status }) (fun _ => rfl) b id

theorem label_finish {b b' : Board ρ} {id : CallId} (h : b.finish id = .moved b') :
    b'.calls.map Call.label = b.calls.map Call.label := by
  obtain ⟨call, queue, q, q', -, -, -, -, -, rfl⟩ := finish_moved h
  exact map_calls_modifyCall (f := fun call => { call with finished := true }) (fun _ => rfl) b id

/-- Taking a call out leaves no others in flight. -/
theorem mem_pending_remove {b : Board ρ} {seq : UInt64} :
    ∀ e ∈ (b.remove seq).2.registry.pending, e ∈ b.registry.pending :=
  fun _ he => (List.mem_filter.mp he).1

/-- The call that the holder of the lock finds under its number is its own. -/
theorem Records.find?_current {b : Board ρ} (h : Records events b)
    (hnumbers : b.registry.Numbered (registrations events).length) {id other : CallId}
    {call : Call ρ} (hcurrent : Current events b id call)
    (hfind : b.registry.find? call.seq = some other) : other = id := by
  obtain ⟨-, earlier, hlast⟩ := hcurrent
  have hmem := h.inFlight _ (hnumbers.find?_eq_some_iff.mp hfind)
  have hown : (id, call.seq) ∈ registrations events := by simp [hlast]
  have hnodup : ((registrations events).map (·.2.toNat)).Nodup := h.counts ▸ List.nodup_range'
  exact congrArg Prod.fst (List.inj_on_of_nodup_map hnodup hmem hown rfl)

theorem Turns.send [ByteStream σ] (h : c.Turns events)
    (hnumbers : c.board.registry.Numbered (registrations events).length) {t : TaskId} {id : CallId}
    {call : Call ρ} {waits : Bool} {phase : SendPhase}
    (htask : c.tasks[t]? = some (.send id waits phase)) (hcall : c.board.call? id = some call)
    (hchange : SendChange c t id call waits phase new c') : c'.Turns (events ++ new) := by
  have hready := h.ready _ (List.mem_of_getElem? htask)
  have hsame {task : Task} (htask : task ∈ c.tasks) :
      Ready (events ++ []) c.board c.header task := (h.ready task htask).keep rfl (grows_of_labels rfl)
  cases hchange with
  | enter hlock =>
      refine h.advance htask rfl rfl rfl rfl (by simp [Task.isInside]) (fun holder hne => ?_)
        (h.records.keep ⟨rfl, rfl⟩ rfl fun _ he => he) (hready.keep rfl (grows_of_labels rfl))
        fun t' task hmem _ => hsame (List.mem_of_getElem? hmem)
      simpa [hlock] using fun heq => hne heq.symm
  | register havail =>
      have hlock := h.lock_eq htask rfl
      have hnew : registrations (events ++ [Event.registered id c.board.registry.nextSeq]) =
          registrations events ++ [(id, c.board.registry.nextSeq)] := by
        rw [registrations_append]
        rfl
      have hown (e : CallId × UInt64)
          (he : e ∈ registrations [Event.registered (ρ := ρ) id c.board.registry.nextSeq]) :
          e.1 = id := by
        simp only [registrations, List.filterMap_cons, List.filterMap_nil, List.mem_singleton] at he
        rw [he]
      refine h.advance htask rfl rfl rfl (length_calls_registered ..) (iff_of_true hlock rfl)
        (fun _ _ => Iff.rfl) (h.records.register hnumbers hcall hready) ?_
        (h.others htask rfl rfl hown _ _)
      refine ⟨{ call with seq := c.board.registry.nextSeq }, ?_, _, hnew⟩
      rw [call?_registered, if_pos rfl, hcall]
      rfl
  | refuse havail =>
      have hlabels := label_setError c.board id .unavailable
      refine h.proceed htask rfl rfl rfl rfl rfl rfl ⟨rfl, rfl⟩ hlabels (fun _ he => he) ?_
      rw [List.append_nil]
      exact ⟨rfl, .inl hready⟩
  | address =>
      have hlock := h.lock_eq htask rfl
      refine h.advance htask rfl rfl rfl rfl (iff_of_true hlock rfl) (fun _ _ => Iff.rfl)
        (h.records.keep ⟨rfl, rfl⟩ rfl fun _ he => he) ?_ (h.others htask rfl rfl (by simp [registrations]) _ _)
      obtain ⟨call', hcurrent⟩ := hready
      obtain rfl : call' = call := by simpa [hcall] using hcurrent.1.symm
      rw [List.append_nil]
      exact ⟨call', hcurrent, rfl⟩
  | write hwrite =>
      exact h.proceed htask rfl rfl rfl rfl rfl rfl ⟨rfl, rfl⟩ rfl (fun _ he => he) trivial
  | fail hwrite =>
      refine h.proceed htask rfl rfl rfl rfl rfl rfl ⟨rfl, rfl⟩ rfl (fun _ he => he) ?_
      have hkept : Ready (events ++ [.unsent id]) c.board c.header (.send id waits .writing) :=
        hready.keep rfl (grows_of_labels rfl)
      exact ⟨by simp, hkept⟩
  | @withdraw f other hfind =>
      have hlabels : ((c.board.remove c.header.seq).2.setError other (sendFailure f)).calls.map
          Call.label = c.board.calls.map Call.label := label_setError ..
      refine h.proceed htask rfl rfl rfl rfl rfl rfl ⟨rfl, rfl⟩ hlabels mem_pending_remove ?_
      obtain ⟨hunsent, call', hcurrent, hheader⟩ := hready
      rw [hheader] at hfind
      rw [List.append_nil]
      exact ⟨h.records.find?_current hnumbers hcurrent hfind, .inr hunsent⟩
  | answered hfind =>
      exact h.proceed htask rfl rfl rfl rfl rfl rfl ⟨rfl, rfl⟩ rfl (fun _ he => he) trivial
  | finish hfinish =>
      refine h.proceed htask rfl rfl rfl rfl rfl rfl ⟨rfl, rfl⟩ (label_finish hfinish) ?_ trivial
      rw [registry_finish hfinish]
      exact fun _ he => he
  | leave =>
      have hlock := h.lock_eq htask rfl
      have hout : (Task.send id waits (if waits then .collecting else .returned none)).isInside =
          false := by
        cases waits <;> rfl
      refine h.advance htask rfl rfl rfl rfl (by simp [hout]) (fun holder hne => ?_)
        (h.records.keep ⟨rfl, rfl⟩ rfl fun _ he => he) ?_
        fun t' task hmem _ => hsame (List.mem_of_getElem? hmem)
      · simpa [hlock] using fun heq => hne heq.symm
      · cases waits <;> trivial
  | collect hqueue hpop =>
      obtain ⟨q, q', -, -, rfl⟩ := pop?_eq_some hpop
      exact h.proceed htask rfl rfl rfl rfl rfl rfl ⟨rfl, rfl⟩ rfl (fun _ he => he) trivial

theorem Turns.close [ByteStream σ] (h : c.Turns events) {t : TaskId} {drops : Bool}
    {phase : ClosePhase} (htask : c.tasks[t]? = some (.close drops phase))
    (hchange : CloseChange c t drops phase c') : c'.Turns (events ++ []) := by
  cases hchange with
  | _ => exact h.proceed htask rfl rfl rfl rfl rfl rfl ⟨rfl, rfl⟩ rfl (fun _ he => he) trivial

/-- The receiver takes the lock only if nobody holds it, and gives it back. -/
theorem Turns.receive [ByteStream σ] (h : c.Turns events)
    (hchange : ReceiverChange c c.receiver new c') : c'.Turns (events ++ new) := by
  generalize hat : c.receiver = place at hchange
  have hkept : ∀ task ∈ c.tasks, Ready (events ++ []) c.board c.header task :=
    fun task htask => (h.ready task htask).keep rfl (grows_of_labels rfl)
  cases hchange with
  | lock hlock =>
      refine ⟨h.records.keep ⟨rfl, rfl⟩ rfl fun _ he => he, h.owners, fun t => ?_, ?_, hkept⟩
      · simpa [hlock] using h.holder t
      · simp [Receiver.isInside]
  | unlock =>
      have hlock : c.lock = some .receiver := h.receiver.mpr (by rw [hat]; rfl)
      refine ⟨h.records.keep ⟨rfl, rfl⟩ rfl fun _ he => he, h.owners, fun t => ?_, ?_, hkept⟩
      · simpa [hlock] using h.holder t
      · simp [Receiver.isInside]
  | matchError =>
      exact h.keep ⟨rfl, rfl⟩ rfl rfl rfl (by rw [hat]; rfl) (label_setError ..) mem_pending_remove
  | matchReply =>
      exact h.keep ⟨rfl, rfl⟩ rfl rfl rfl (by rw [hat]; rfl) rfl mem_pending_remove
  | @skipFail _ _ call =>
      refine h.keep ⟨rfl, rfl⟩ rfl rfl rfl ?_ rfl fun _ he => he
      rw [hat]
      cases call <;> rfl
  | @skip _ _ call =>
      refine h.keep ⟨rfl, rfl⟩ rfl rfl rfl ?_ rfl fun _ he => he
      rw [hat]
      cases call <;> rfl
  | replyFail =>
      exact h.keep ⟨rfl, rfl⟩ rfl rfl rfl (by rw [hat]; rfl) (label_setError ..) fun _ he => he
  | @reply _ _ id call _ after _ fault =>
      refine h.keep ⟨rfl, rfl⟩ rfl rfl rfl (by rw [hat]; rfl) ?_ fun _ he => he
      exact map_calls_modifyCall (f := fun call' =>
        { call' with reply := after, error := (replyOutcome call.error fault).1 })
        (fun _ => rfl) c.board id
  | finish hfinish =>
      refine h.keep ⟨rfl, rfl⟩ rfl rfl rfl ?_ (label_finish hfinish) ?_
      · rw [hat, Receiver.isInside_afterCall]
        rfl
      · rw [registry_finish hfinish]
        exact fun _ he => he
  | take =>
      refine h.keep ⟨rfl, rfl⟩ rfl rfl rfl (by rw [hat]; rfl) rfl ?_
      simp [Registry.emptied]
  | terminate hfinish =>
      refine h.keep ⟨rfl, rfl⟩ rfl rfl rfl (by rw [hat]; rfl)
        ((label_finish hfinish).trans (label_setError ..)) ?_
      rw [registry_finish hfinish]
      exact fun _ he => he
  | _ => exact h.keep ⟨rfl, rfl⟩ rfl rfl rfl (by rw [hat]; rfl) rfl fun _ he => he

/-- A task that is begun does not hold the send lock. -/
theorem Turns.extend (h : c.Turns events) {task : Task} (hout : task.isInside = false)
    (htasks : c'.tasks = c.tasks ++ [task]) (hlock : c'.lock = c.lock)
    (hheader : c'.header = c.header) (hreceiver : c'.receiver = c.receiver)
    (howners : List.range c'.board.calls.length =
      List.range c.board.calls.length ++ task.own.toList)
    (hrecords : Records (events ++ new) c'.board) (hnew : registrations new = [])
    (hgrows : Grows c.board c'.board) (hready : Ready (events ++ new) c'.board c'.header task) :
    c'.Turns (events ++ new) := by
  have hlocked := h.locked.extend hout htasks hlock hreceiver howners
  refine ⟨hrecords, hlocked.owners, hlocked.holder, hlocked.receiver, fun other hmem => ?_⟩
  rw [htasks, List.mem_append, List.mem_singleton] at hmem
  cases hmem with
  | inl hold =>
      rw [hheader]
      exact (h.ready other hold).keep hnew hgrows
  | inr hlast => exact hlast ▸ hready

/-- A call that is begun is not registered yet. -/
theorem Turns.begin (h : c.Turns events) {queues : List CompletionQueue} (r : Request ρ)
    (queue : QueueId) (waits : Bool) :
    (beginSend { c with board := { c.board with queues } } r queue waits).1.Turns
      (events ++ [.begun c.board.calls.length r]) := by
  have hfresh : c.board.calls.length ∉ (registrations events).map (·.1) := by
    intro hmem
    obtain ⟨e, he, heq⟩ := List.mem_map.mp hmem
    obtain ⟨call, hcall, -⟩ := Option.map_eq_some_iff.mp (h.records.known e he)
    have hlt := (List.getElem?_eq_some_iff.mp hcall).1
    exact absurd heq (Nat.ne_of_lt hlt)
  have hsame : registrations (events ++ [Event.begun c.board.calls.length r]) =
      registrations events := by
    simp [registrations]
  refine h.extend rfl rfl rfl rfl rfl ?_ (h.records.begin r queue) rfl
    (grows_addCall c.board queues (r.toCall queue)) ?_
  · simp [beginSend, addCall, Task.own, List.range_succ]
  · show c.board.calls.length ∉ _
    rw [hsame]
    exact hfresh

theorem Turns.change [ByteStream σ] (h : c.Turns events)
    (hnumbers : c.board.registry.Numbered (registrations events).length)
    (hchange : Change c new c') : c'.Turns (events ++ new) := by
  cases hchange with
  | begin => exact h.begin _ _ _
  | send htask hcall hsend => exact h.send hnumbers htask hcall hsend
  | closing htask hclose => exact h.close htask hclose
  | receive hreceive => exact h.receive hreceive
  | collect hpop =>
      obtain ⟨q, q', -, -, rfl⟩ := pop?_eq_some hpop
      exact h.keep ⟨rfl, rfl⟩ rfl rfl rfl rfl rfl fun _ he => he
  | close drops =>
      refine h.extend rfl rfl rfl rfl rfl ?_ (h.records.keep ⟨rfl, rfl⟩ rfl fun _ he => he) rfl
        (grows_of_labels rfl) trivial
      simp [Client.beginClose, Task.own]
  | _ => exact h.keep ⟨rfl, rfl⟩ rfl rfl rfl rfl rfl fun _ he => he

end Steps

/-- In every run, threads send their requests one at a time. -/
theorem Run.turns [ByteStream σ] {outside : σ → σ → Prop} {codec : Codec σ} {p : Preamble}
    {log : List Log.Entry} {order : Registry.Order} {events : List (Event ρ)} {c : Client σ ρ}
    (run : Run outside (Client.start codec p log order) events c)
    (hfew : (registrations events).length < Registry.seqLimit) : c.Turns events := by
  induction run with
  | start => exact turns_start codec p log order
  | step run move hstep ih =>
      have hbefore := few_of_append hfew
      have hcustody := run.custody hbefore
      exact (ih hbefore).change hcustody.numbered
        (change_of_step hcustody.numbered hcustody.readsReply hstep)
  | outside _ stream _ ih =>
      have hbefore := ih hfew
      exact ⟨hbefore.records, hbefore.owners, hbefore.holder, hbefore.receiver, hbefore.ready⟩

end Client

end RemoteCalls
