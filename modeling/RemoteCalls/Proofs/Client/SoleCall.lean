import Mathlib.Data.List.Perm.Subperm
import RemoteCalls.Proofs.Client.Transfers

/-!
# RemoteCalls.Proofs.Client.SoleCall

What a client hands over that makes one call.

A request is handed over once at most (`Walk.handed_le`).  So whatever order a
client's threads take their steps in, it hands over the request of its only call,
under the number one, or nothing (`Walk.taken_of_sole`).
-/

namespace RemoteCalls

/-- Whether a task has come past the write of its request. -/
def Task.isPastWrite : Task → Bool
  | .send _ _ .entering => false
  | .send _ _ .registering => false
  | .send _ _ .addressing => false
  | .send _ _ .writing => false
  | .send _ _ _ => true
  | .close _ _ => false

/-- A message is the request that a client makes first: it has the number one. -/
def Request.IsFirst {ρ : Type} (r : Request ρ) (m : Message) : Prop :=
  m.header = { service := r.service, method := r.method, seq := 1 } ∧
    ∃ entries, Codec.bodyPayload r.args = (m.body, entries, none)

namespace Client

open Board

variable {σ ρ : Type} [ByteStream σ]

/-! ## Requests are handed over once -/

section Step

variable {c c' : Client σ ρ} {move : Move ρ}

/-- A thread hands its request over when it goes past the write, and does not come back. -/
theorem SendChange.isPastWrite_le {t : TaskId} {id : CallId} {call : Call ρ} {waits : Bool}
    {phase : SendPhase} {events : List (Event ρ)}
    (htask : c.tasks[t]? = some (.send id waits phase))
    (h : SendChange c t id call waits phase events c') :
    ∃ next, c'.tasks = c.tasks.set t next ∧
      (Taken.handed? ⟨c, .task t⟩).toList.length + (Task.send id waits phase).isPastWrite.toNat ≤
        next.isPastWrite.toNat := by
  have hnone (hphase : phase ≠ .writing) : Taken.handed? ⟨c, .task t⟩ = none := by
    simp only [Taken.handed?, htask]
    cases phase <;> first | rfl | contradiction
  cases h with
  | write => exact ⟨_, rfl, Option.length_toList_le⟩
  | fail => exact ⟨_, rfl, Option.length_toList_le⟩
  | leave => exact ⟨_, rfl, by rw [hnone (by simp)]; cases waits <;> exact Nat.le_refl 1⟩
  | _ => exact ⟨_, rfl, by rw [hnone (by simp)]; simp [Task.isPastWrite]⟩

/-- With every request that is handed over, one more task is past its write. -/
theorem Effect.handed_le (h : Effect c move c') :
    (Taken.handed? ⟨c, move⟩).toList.length + c.tasks.countP Task.isPastWrite ≤
      c'.tasks.countP Task.isPastWrite := by
  have hadded {task : Task} (hnone : Taken.handed? ⟨c, move⟩ = none)
      (htasks : c'.tasks = c.tasks ++ [task]) :
      (Taken.handed? ⟨c, move⟩).toList.length + c.tasks.countP Task.isPastWrite ≤
        c'.tasks.countP Task.isPastWrite := by
    rw [hnone, htasks, List.countP_append, Option.toList_none, List.length_nil, Nat.zero_add]
    exact Nat.le_add_right ..
  have hset {t : TaskId} {old next : Task} (htask : c.tasks[t]? = some old)
      (htasks : c'.tasks = c.tasks.set t next)
      (hle : (Taken.handed? ⟨c, .task t⟩).toList.length + old.isPastWrite.toNat ≤
        next.isPastWrite.toNat) :
      (Taken.handed? ⟨c, .task t⟩).toList.length + c.tasks.countP Task.isPastWrite ≤
        c'.tasks.countP Task.isPastWrite := by
    have hcount : c'.tasks.countP Task.isPastWrite + old.isPastWrite.toNat =
        c.tasks.countP Task.isPastWrite + next.isPastWrite.toNat := by
      rw [htasks]
      exact countP_setTask htask Task.isPastWrite next
    omega
  cases h with
  | alone halone =>
      have hnone : Taken.handed? ⟨c, move⟩ = none := by
        cases move <;> first | rfl | contradiction
      exact hadded hnone rfl
  | go => exact hadded rfl rfl
  | close => exact hadded rfl rfl
  | send htask _ h =>
      obtain ⟨next, htasks, hle⟩ := h.isPastWrite_le htask
      exact hset htask htasks hle
  | passOver htask => exact hset htask rfl (by simp [Taken.handed?, htask, Task.isPastWrite])
  | closing htask h =>
      obtain ⟨next, htasks⟩ := h.tasks
      exact hset htask htasks (by simp [Taken.handed?, htask, Task.isPastWrite])
  | receive h =>
      rw [h.tasks]
      exact Nat.le_of_eq (Nat.zero_add _)
  | _ => exact Nat.le_of_eq (Nat.zero_add _)

end Step

section Walks

variable {outside : σ → σ → Prop} {codec : Codec σ} {p : Preamble} {log : List Log.Entry}
  {order : Registry.Order} {steps : List (Taken σ ρ)} {c : Client σ ρ}

/-- Not more requests are handed over than calls are begun. -/
theorem Walk.handed_le (walk : Walk outside (Client.start codec p log order) steps c) :
    (steps.filterMap Taken.handed?).length ≤ c.board.calls.length := by
  -- Each request that has been handed over has a task of its own that is past the write.
  have hpast : (steps.filterMap Taken.handed?).length ≤ c.tasks.countP Task.isPastWrite := by
    induction walk with
    | start => exact Nat.le_refl 0
    | @step steps before after walk move h ih =>
        have hnew : [(⟨before, move⟩ : Taken σ ρ)].filterMap Taken.handed? =
            (Taken.handed? ⟨before, move⟩).toList := by
          rw [List.filterMap_cons]
          cases Taken.handed? ⟨before, move⟩ <;> rfl
        have hstep := (effect_of_step walk.holding.readsReply h).handed_le
        rw [List.filterMap_append, List.length_append, hnew]
        omega
    | outside _ _ _ ih => exact ih
  have hcalls : c.tasks.countP (·.own.isSome) = c.board.calls.length := by
    rw [← List.length_filterMap_eq_countP, walk.locked.owners, List.length_range]
  refine hcalls ▸ Nat.le_trans hpast (List.countP_mono_left fun task _ hpast => ?_)
  cases task with
  | send => rfl
  | close => contradiction

/-- Every step of a walk was taken in a client that a walk leads to. -/
theorem Walk.exists_before {c₀ : Client σ ρ} (walk : Walk outside c₀ steps c) {s : Taken σ ρ}
    (hs : s ∈ steps) :
    ∃ earlier later, steps = earlier ++ s :: later ∧ Walk outside c₀ earlier s.before := by
  induction walk with
  | start => contradiction
  | outside _ _ _ ih => exact ih hs
  | @step before c _ walk move _ ih =>
      obtain hbefore | rfl := List.mem_append.mp hs |>.imp_right List.mem_singleton.mp
      · obtain ⟨earlier, later, rfl, hwalk⟩ := ih hbefore
        exact ⟨earlier, later ++ [⟨c, move⟩], by simp, hwalk⟩
      · exact ⟨before, [], rfl, walk⟩

end Walks

/-! ## Clients that make one call -/

section Registrations

variable {outside : σ → σ → Prop} {codec : Codec σ} {p : Preamble} {log : List Log.Entry}
  {order : Registry.Order} {events : List (Event ρ)} {c : Client σ ρ}

omit [ByteStream σ] in
/-- Calls are registered after they have been begun, and only once. -/
theorem Records.length_registrations_le {b : Board ρ} (h : Records events b) :
    (registrations events).length ≤ b.calls.length := by
  have hbegun : (registrations events).map (·.1) ⊆ List.range b.calls.length := by
    intro id hid
    obtain ⟨e, he, rfl⟩ := List.mem_map.mp hid
    obtain ⟨call, hcall, -⟩ := Option.map_eq_some_iff.mp (h.known e he)
    exact List.mem_range.mpr (List.getElem?_eq_some_iff.mp hcall).1
  simpa using (List.Nodup.subperm h.once hbegun).length_le

omit [ByteStream σ] in
theorem Custody.length_calls (h : c.Custody events) :
    c.board.calls.length = (requests events).length := by
  have hbegun := congrArg List.length h.begun
  rw [List.length_map, List.length_range] at hbegun
  exact hbegun.symm

/-- A move registers one call at most. -/
theorem length_registrations_observe_le (c : Client σ ρ) (move : Move ρ) :
    (registrations (c.observe move)).length ≤ 1 := by
  cases move with
  | go r queue =>
      rw [observe]
      split <;> exact Nat.zero_le 1
  | task t =>
      obtain h | ⟨id, ⟨seq, h⟩ | h | h | h⟩ := c.observe_task_cases t <;> simp [h, registrations]
  | receive =>
      rw [observe, registrations_observeReceiver]
      exact Nat.zero_le 1
  | _ => exact Nat.zero_le 1

/-- If one call is begun, no more is registered. -/
theorem Run.registrations_le_one (run : Run outside (Client.start codec p log order) events c)
    (hone : (requests events).length ≤ 1) : (registrations events).length ≤ 1 := by
  induction run with
  | start => exact Nat.zero_le 1
  | outside _ _ _ ih => exact ih hone
  | @step events c _ run move h ih =>
      have hbefore : (registrations events).length ≤ 1 := by
        refine ih (Nat.le_trans ?_ hone)
        rw [requests_append, List.length_append]
        exact Nat.le_add_right ..
      have hfew : (registrations (events ++ c.observe move)).length < Registry.seqLimit := by
        have hmove := c.length_registrations_observe_le move
        have hlimit : 2 < Registry.seqLimit := by decide
        rw [registrations_append, List.length_append]
        omega
      have hafter := run.step move h
      refine Nat.le_trans (hafter.turns hfew).records.length_registrations_le ?_
      rwa [(hafter.custody hfew).length_calls]

end Registrations

section Sole

variable {outside : σ → σ → Prop} {codec : Codec σ} {p : Preamble} {log : List Log.Entry}
  {order : Registry.Order} {steps : List (Taken σ ρ)} {c : Client σ ρ} {r : Request ρ}

/-- The thread of the only call writes under a header that asks for what the call was begun with,
under the number one. -/
theorem Walk.writing_of_sole (walk : Walk outside (Client.start codec p log order) steps c)
    (hsole : requests (steps.flatMap Taken.events) <+: [(0, r)]) {t : TaskId} {id : CallId}
    {waits : Bool} {call : Call ρ} (htask : c.tasks[t]? = some (.send id waits .writing))
    (hcall : c.board.call? id = some call) :
    c.header = { service := r.service, method := r.method, seq := 1 } ∧ call.args = r.args := by
  have hone := walk.run.registrations_le_one hsole.length_le
  have hfew := Nat.lt_of_le_of_lt hone (by decide : 1 < Registry.seqLimit)
  have hturns := walk.run.turns hfew
  obtain ⟨call', hcurrent, hheader⟩ := hturns.ready _ (List.mem_of_getElem? htask)
  have hlength := hcurrent.seq_eq hturns.records
  obtain ⟨hcall', earlier, hlast⟩ := hcurrent
  obtain rfl : call' = call := by simpa [hcall] using hcall'.symm
  obtain ⟨r', hr', hasked⟩ := request_of_call? (walk.run.custody hfew) hturns hcall
  obtain rfl : r' = r := (Prod.mk.inj (List.mem_singleton.mp (hsole.subset hr'))).2
  simp only [Call.asked, Request.asked, Prod.mk.injEq] at hasked
  obtain ⟨hservice, hmethod, hargs, -⟩ := hasked
  have hseq : call'.seq = 1 := by
    rw [hlast, List.length_append, List.length_singleton] at hlength hone
    exact UInt64.toNat_inj.mp (show call'.seq.toNat = 1 by omega)
  refine ⟨?_, hargs⟩
  rw [hheader, requestHeader, hservice, hmethod, hseq]

/-- What is handed over is the request of the only call, under the number one. -/
theorem Walk.isFirst_of_sole (walk : Walk outside (Client.start codec p log order) steps c)
    (hsole : requests (steps.flatMap Taken.events) <+: [(0, r)]) {s : Taken σ ρ} (hs : s ∈ steps)
    {m : Message} {fault : Option Fault} (h : s.handed? = some (m, fault)) : r.IsFirst m := by
  obtain ⟨earlier, later, rfl, before⟩ := walk.exists_before hs
  rw [List.flatMap_append, requests_append] at hsole
  obtain ⟨t, id, waits, call, -, htask, hcall, hwritten⟩ := writing_of_handed? h
  obtain ⟨hheader, hargs⟩ :=
    before.writing_of_sole ((List.prefix_append ..).trans hsole) htask hcall
  obtain ⟨hbody, hsame, -⟩ := Message.ofWriting_eq_some hwritten
  exact ⟨hsame.trans hheader, hargs ▸ hbody⟩

/-- A thread that writes hands the request over, if that fits its frames. -/
theorem Walk.handed?_of_sole (walk : Walk outside (Client.start codec p log order) steps c)
    (hsole : requests (steps.flatMap Taken.events) <+: [(0, r)]) {s : Taken σ ρ} (hs : s ∈ steps)
    {t : TaskId} {id : CallId} {waits : Bool} (hmove : s.move = .task t)
    (htask : s.before.tasks[t]? = some (.send id waits .writing)) {m : Message} (hm : r.IsFirst m)
    (hfits : m.Fits codec.limit) :
    s.handed? = some (m, (ByteStream.write m.encode s.before.codec.stream).2) := by
  obtain ⟨before, move⟩ := s
  obtain rfl : move = .task t := hmove
  obtain ⟨earlier, later, rfl, hbefore⟩ := walk.exists_before hs
  rw [List.flatMap_append, requests_append] at hsole
  obtain ⟨call, hcall⟩ := hbefore.locked.exists_call htask
  obtain ⟨hheader, hargs⟩ :=
    hbefore.writing_of_sole ((List.prefix_append ..).trans hsole) htask hcall
  obtain ⟨hfirst, entries, hbody⟩ := hm
  rw [handed?_of_writing htask hcall, hheader, hargs, hbefore.limit_eq,
    Message.ofWriting_of_fits hfirst hfits hbody, Option.map_some]

/-- **A client that makes one call hands its request over, or nothing.**  Whatever order its threads
take their steps in, the connection takes nothing, or all of the request if its write succeeds and
otherwise a part. -/
theorem Walk.taken_of_sole (u : Uptake σ) (hlimit : codec.limit < Ty.countLimit)
    (houtside : ∀ s s', outside s s' → u.taken s' = u.taken s)
    (walk : Walk outside (Client.start codec p log order) steps c)
    (hsole : requests (steps.flatMap Taken.events) <+: [(0, r)]) :
    (steps.filterMap Taken.handed? = [] ∧ u.taken c.codec.stream = u.taken codec.stream) ∨
    ∃ t : Transfer, r.IsFirst t.message ∧ t.message.Fits codec.limit ∧
      steps.filterMap Taken.handed? = [(t.message, t.fault)] ∧
      u.taken c.codec.stream = u.taken codec.stream ++ t.taken := by
  have hone : c.board.calls.length ≤ 1 := by
    have hfew := Nat.lt_of_le_of_lt (walk.run.registrations_le_one hsole.length_le)
      (by decide : 1 < Registry.seqLimit)
    rw [(walk.run.custody hfew).length_calls]
    exact hsole.length_le
  obtain ⟨ts, hts, htaken⟩ := walk.transfers u hlimit houtside
  have hle := hts ▸ walk.handed_le
  rcases ts with _ | ⟨t, _ | ⟨t', ts⟩⟩
  · exact .inl ⟨hts.symm, by simpa using htaken⟩
  · have hmem : (t.message, t.fault) ∈ steps.filterMap Taken.handed? := by simp [← hts]
    obtain ⟨s, hs, hhanded⟩ := List.mem_filterMap.mp hmem
    exact .inr ⟨t, walk.isFirst_of_sole hsole hs hhanded,
      (walk.isOwnRequest hlimit hs hhanded).2, hts.symm, by simpa using htaken⟩
  · simp only [List.map_cons, List.length_cons] at hle
    omega

end Sole

end Client

end RemoteCalls
