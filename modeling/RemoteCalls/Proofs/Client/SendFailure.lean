import RemoteCalls.Proofs.Client.Sparing
import RemoteCalls.Proofs.Message.Atomicity
import RemoteCalls.Proofs.Transport.Uptake

/-!
# RemoteCalls.Proofs.Client.SendFailure

A request that cannot be written is a matter of its own call.

The thread puts its call in flight, fails to write the request, and takes the call
out again, unless the receiver has done so before.  In the first case nothing is
left of it but the outcome of the call and a number that nobody else gets
(`Failing`), so everybody else goes on as in a client in which that number has been
skipped and the thread has never gone on (`Detour`).  In the second case the thread
finds nothing to take out, and leaves calls and queues alone (`Beaten`).
-/

namespace RemoteCalls

/-- A thread has taken a number for its call. -/
def SendPhase.isNumbered : SendPhase → Bool
  | .entering => false
  | .registering => false
  | _ => true

/-- A thread is done with its call. -/
def SendPhase.isDone : SendPhase → Bool
  | .leaving => true
  | .returned _ => true
  | _ => false

/-! ## A call in flight -/

namespace Registry

/-- The call is in flight under this number and no other, and no other call is under this one. -/
structure Files (r : Registry) (seq : UInt64) (id : CallId) : Prop where
  mem : (seq, id) ∈ r.pending
  alone : ∀ e ∈ r.pending, e.1 = seq ↔ e.2 = id

variable {r : Registry} {seq other : UInt64} {id : CallId}

theorem Files.find? (h : r.Files seq id) : r.find? seq = some id := by
  cases hfind : r.find? seq with
  | none =>
      have hnone := List.lookup_eq_none_iff.mp hfind (seq, id) h.mem
      simp at hnone
  | some found =>
      obtain ⟨before, after, heq, -⟩ := List.lookup_eq_some_iff.mp hfind
      have hfound : (seq, found) ∈ r.pending := by simp [heq]
      exact congrArg some ((h.alone _ hfound).mp rfl)

/-- The call is found under no other number. -/
theorem Files.seq_eq (h : r.Files seq id) (hfind : r.find? other = some id) : other = seq := by
  obtain ⟨before, after, heq, -⟩ := List.lookup_eq_some_iff.mp hfind
  have hmem : (other, id) ∈ r.pending := by simp [heq]
  exact (h.alone _ hmem).mpr rfl

theorem Files.remove_of_ne (h : r.Files seq id) (hne : other ≠ seq) :
    (r.remove other).2.Files seq id := by
  refine ⟨List.mem_filter.mpr ⟨h.mem, by simpa using hne.symm⟩, fun e he => ?_⟩
  exact h.alone e (List.mem_filter.mp he).1

/-- A call that is put in flight under a free number is alone under it. -/
theorem files_filed (hfree : r.find? r.nextSeq = none) (hnot : id ∉ r.pending.map (·.2)) :
    (r.filed id).Files r.nextSeq id := by
  refine ⟨by simp [filed], fun e he => ?_⟩
  rw [filed, List.mem_append, List.mem_singleton] at he
  obtain hold | rfl := he
  · refine iff_of_false (fun heq => ?_) fun heq => hnot (heq ▸ List.mem_map_of_mem hold)
    have hne := List.lookup_eq_none_iff.mp hfree e hold
    simp [heq] at hne
  · simp

/-- What is left of a registry when the call has been taken out is the registry without it. -/
theorem Files.without_remove (h : r.Files seq id) :
    (r.remove seq).2.without id = r.without id := by
  have hsame : (r.pending.filter (·.1 != seq)).filter (·.2 != id) =
      r.pending.filter (·.2 != id) := by
    rw [List.filter_filter]
    refine List.filter_congr fun e he => ?_
    have hkeys : (e.1 != seq) = (e.2 != id) :=
      Bool.eq_iff_iff.mpr (by simpa using not_congr (h.alone e he))
    rw [hkeys, Bool.and_self]
  simp only [remove, without, hsame]

end Registry

/-- A write that fails changes nothing about a codec but its connection. -/
theorem Codec.withStream_of_write_fault {σ : Type} [ByteStream σ] {c codec : Codec σ} {h : Header}
    {body : Option BodyWriter} {entries : List Log.Entry} {f : Fault}
    (hwrite : c.write h body = (codec, entries, some f)) : codec = c.withStream codec.stream := by
  have hwrote := write_wrote c h body
  rw [hwrite] at hwrote
  obtain rfl | ⟨stream, bytes, rfl, -⟩ := hwrote.eq_some
  · rfl
  · rfl

namespace Board

variable {ρ : Type} {b b' : Board ρ}

/-- Taking the call out and giving it an outcome comes to nothing. -/
theorem sparing_withdrawn {seq : UInt64} {id : CallId} {made : Call ρ} {status : Status}
    (hfiles : b.registry.Files seq id) :
    ((b.remove seq).2.setError id status).sparing id made = b.sparing id made := by
  rw [setError, sparing_modifyCall_self]
  exact congrArg (fun registry => { b.sparing id made with registry }) hfiles.without_remove

/-- Only calls that have been made wait in a queue. -/
def Delivers (b : Board ρ) : Prop := ∀ q ∈ b.queues, ∀ id ∈ q.items, id < b.calls.length

end Board

namespace Client

open Board

variable {σ ρ : Type}

/-! ## What the others do -/

theorem Traffic.delivers {c : Client σ ρ} {move : Move ρ} {b' : Board ρ}
    (htraffic : Traffic c move b') (h : c.board.Delivers) : b'.Delivers := by
  have hlen {b b' : Board ρ} (hcalls : b'.calls.map Call.standing = b.calls.map Call.standing) :
      b'.calls.length = b.calls.length := by
    simpa using congrArg List.length hcalls
  have hqueue {b : Board ρ} (h : b.Delivers) (capacity : Nat) :
      (b.addQueue capacity).1.Delivers := by
    intro q hq id hid
    rw [addQueue, List.mem_append, List.mem_singleton] at hq
    obtain hold | rfl := hq
    · exact h q hold id hid
    · contradiction
  have hcall {b : Board ρ} (h : b.Delivers) (call : Call ρ) : (b.addCall call).1.Delivers := by
    intro q hq id hid
    rw [addCall, List.length_append]
    exact Nat.lt_add_right _ (h q hq id hid)
  cases htraffic with
  | still hcalls hqueues =>
      intro q hq id hid
      rw [hlen hcalls]
      exact h q (hqueues ▸ hq) id hid
  | queue hboard => exact hboard ▸ hqueue h _
  | alone _ hboard => exact hboard ▸ hcall (hqueue h _) _
  | go _ _ hboard => exact hboard ▸ hcall h _
  | collect _ hpop =>
      obtain ⟨q, items, hq, hitems, rfl⟩ := pop?_front hpop
      intro q' hq' id hid
      obtain hold | rfl := List.mem_or_eq_of_mem_set hq'
      · exact h q' hold id hid
      · exact h q (List.mem_of_getElem? hq) id (hitems ▸ List.mem_cons_of_mem _ hid)
  | deliver _ hcalls hqueues hfinish =>
      obtain ⟨call, queue, q, hcall, -, -, hq, -, rfl⟩ := finish_delivered hfinish
      have hlt := (List.getElem?_eq_some_iff.mp hcall).1
      intro q' hq' id' hid
      rw [length_calls_delivered, hlen hcalls]
      rw [queue?, hqueues] at hq
      obtain hold | rfl := List.mem_or_eq_of_mem_set hq'
      · exact h q' (hqueues ▸ hold) id' hid
      · obtain hbefore | hlast := List.mem_append.mp hid
        · exact h q (List.mem_of_getElem? hq) id' hbefore
        · rw [List.mem_singleton.mp hlast, ← hlen hcalls]
          exact hlt

section Others

variable {c : Client σ ρ} {move : Move ρ} {t : TaskId} {task : Task} {id : CallId}

/-- The call that a response is found to belong to in a step, if any. -/
def Taken.answers? (s : Taken σ ρ) : Option CallId :=
  match s.move, s.before.receiver with
  | .receive, .matching response => s.before.board.registry.find? response.seq
  | _, _ => none

theorem Taken.answers?_eq_some {s : Taken σ ρ} : s.answers? = some id ↔
    s.move = .receive ∧ ∃ response, s.before.receiver = .matching response ∧
      s.before.board.registry.find? response.seq = some id := by
  unfold Taken.answers?
  constructor
  · intro h
    split at h
    case h_1 response hmove hat => exact ⟨hmove, response, hat, h⟩
    case h_2 => contradiction
  · rintro ⟨hmove, response, hat, hfind⟩
    rw [hmove, hat]
    exact hfind

/-- While a thread is past the send lock, a call in flight is out of reach for all others, but for
the receiver when it has a response for it. -/
theorem Holding.not_mem_reach_of_pending (h : c.Holding) (hlocked : c.Locked)
    (htask : c.tasks[t]? = some task) (hinside : task.isInside = true) (hmove : move ≠ .task t)
    (hmem : id ∈ c.board.registry.pending.map (·.2)) (hnot : Taken.answers? ⟨c, move⟩ ≠ some id) :
    id ∉ c.reach move := by
  obtain ⟨-, hothers, hapart⟩ := List.nodup_append.mp h.once
  obtain ⟨-, -, hreceiver⟩ := List.nodup_append.mp hothers
  cases move with
  | task t' =>
      simp only [reach]
      split
      case h_1 own waits fault htask' =>
        have hne : t ≠ t' := fun heq => hmove (congrArg Move.task heq.symm)
        exact absurd (hlocked.outside_of_ne htask hinside htask' hne) (by simp [Task.isInside])
      case h_2 task' _ htask' =>
        intro hheld
        have hmine : id ∈ c.tasks.filterMap Task.held :=
          List.mem_filterMap.mpr ⟨task', List.mem_of_getElem? htask', Option.mem_toList.mp hheld⟩
        exact hapart id hmine id (List.mem_append_right _ hmem) rfl
      case h_3 => exact List.not_mem_nil
  | receive =>
      simp only [reach, Taken.answers?] at hnot ⊢
      split
      case h_1 response hat =>
        rw [hat] at hnot
        simpa using hnot
      case h_2 => exact fun hheld => hreceiver id hheld id hmem rfl
  | _ => exact List.not_mem_nil

variable [ByteStream σ] {c' : Client σ ρ}

/-- A step that leaves header and numbers alone, and takes a call out only for a response. -/
structure Calm (c : Client σ ρ) (move : Move ρ) (c' : Client σ ρ) : Prop where
  header : c'.header = c.header
  grows : Grows c.board c'.board
  pending : c'.board.registry.pending = c.board.registry.pending ∨
    ∃ response id, move = .receive ∧ c.receiver = .matching response ∧
      c.board.registry.find? response.seq = some id ∧
      c'.board.registry.pending = (c.board.registry.remove response.seq).2.pending

/-- While a thread is past the send lock, the steps of all others are calm. -/
theorem Locked.calm (h : c.Locked) (htask : c.tasks[t]? = some task)
    (hinside : task.isInside = true) (heffect : Effect c move c') (hmove : move ≠ .task t) :
    Calm c move c' := by
  have hstill {c' : Client σ ρ} (hheader : c'.header = c.header)
      (hlabels : c'.board.calls.map Call.label = c.board.calls.map Call.label)
      (hpending : c'.board.registry.pending = c.board.registry.pending) : Calm c move c' :=
    ⟨hheader, grows_of_labels hlabels, .inl hpending⟩
  have hout {t' : TaskId} {task' : Task} (htask' : c.tasks[t']? = some task')
      (hmove : Move.task (ρ := ρ) t' ≠ .task t) : task'.isInside = false :=
    h.outside_of_ne htask hinside htask' fun heq => hmove (congrArg Move.task heq.symm)
  have hreceiver : c.receiver.isInside = false := by
    refine Bool.not_eq_true _ ▸ fun hmine => ?_
    have hlock := h.receiver.mpr hmine
    rw [h.lock_eq htask hinside] at hlock
    exact Holder.noConfusion (Option.some.inj hlock)
  cases heffect with
  | alone => exact ⟨rfl, grows_addCall c.board _ _, .inl rfl⟩
  | go => exact ⟨rfl, grows_addCall c.board c.board.queues _, .inl rfl⟩
  | collect hpop =>
      obtain ⟨q, q', -, -, rfl⟩ := pop?_eq_some hpop
      exact hstill rfl rfl rfl
  | send htask' _ hchange =>
      have hnot := hout htask' hmove
      cases hchange with
      | enter => exact hstill rfl rfl rfl
      | collect _ hpop =>
          obtain ⟨q, q', -, -, rfl⟩ := pop?_eq_some hpop
          exact hstill rfl rfl rfl
      | _ => contradiction
  | passOver htask' =>
      have hnot := hout htask' hmove
      contradiction
  | closing _ hchange => cases hchange <;> exact hstill rfl rfl rfl
  | receive hchange =>
      generalize hat : c.receiver = place at hchange hreceiver
      cases hchange with
      | matchError hfind =>
          exact ⟨rfl, grows_of_labels (label_setError ..), .inr ⟨_, _, rfl, hat, hfind, rfl⟩⟩
      | matchReply hfind => exact ⟨rfl, grows_of_labels rfl, .inr ⟨_, _, rfl, hat, hfind, rfl⟩⟩
      | replyFail => exact hstill rfl (label_setError ..) rfl
      | @reply _ _ id call _ after _ fault =>
          exact hstill rfl (map_calls_modifyCall (g := Call.label)
            (f := ({ · with reply := after, error := (replyOutcome call.error fault).1 }))
            (fun _ => rfl) c.board id) rfl
      | finish hfinish =>
          exact hstill rfl (label_finish hfinish) (congrArg Registry.pending
            (registry_finish hfinish))
      | take => contradiction
      | terminate => contradiction
      | _ => exact hstill rfl rfl rfl
  | _ => exact hstill rfl rfl rfl

end Others

/-! ## The thread whose request cannot be written -/

/-- What is known of a call whose request cannot be written at each place of its thread, as long as
no response has come for it. -/
inductive Failing (b : Board ρ) (header : Header) (id : CallId) (f : Fault) : SendPhase → Prop where
  | entering : Failing b header id f .entering
  | registering : Failing b header id f .registering
  | addressing {call : Call ρ} (hcall : b.call? id = some call)
      (hfiles : b.registry.Files call.seq id) : Failing b header id f .addressing
  | writing (hfiles : b.registry.Files header.seq id) : Failing b header id f .writing
  | withdrawing (hfiles : b.registry.Files header.seq id) : Failing b header id f (.withdrawing f)
  | finishing {call : Call ρ} (hcall : b.call? id = some call)
      (herror : call.error = sendFailure f) : Failing b header id f (.finishing id)
  | leaving {call : Call ρ} (hcall : b.call? id = some call) (hfinished : call.finished = true)
      (herror : call.error = sendFailure f) : Failing b header id f .leaving
  | returned {call : Call ρ} (hcall : b.call? id = some call) (hfinished : call.finished = true)
      (herror : call.error = sendFailure f) : Failing b header id f (.returned none)

section Failing

variable {c c' : Client σ ρ} {move : Move ρ} {t : TaskId} {id : CallId} {f : Fault}
  {phase : SendPhase}

/-- The call is in flight only while its thread has the send lock. -/
theorem Failing.lock_eq (h : Failing c.board c.header id f phase) (hholding : c.Holding)
    (hlocked : c.Locked) (htask : c.tasks[t]? = some (.send id false phase))
    (hmem : id ∈ c.board.registry.pending.map (·.2)) : c.lock = some (.task t) := by
  cases h with
  | entering => exact absurd hmem (hholding.not_mem_pending_of_task htask rfl)
  | leaving hcall hfinished =>
      exact absurd hmem (hholding.not_mem_pending_of_finished hcall hfinished)
  | returned hcall hfinished =>
      exact absurd hmem (hholding.not_mem_pending_of_finished hcall hfinished)
  | _ => exact hlocked.lock_eq htask rfl

/-- Only the receiver can come to the call, and only with a response for it. -/
theorem Failing.not_mem_reach (h : Failing c.board c.header id f phase) (hholding : c.Holding)
    (hlocked : c.Locked) (htask : c.tasks[t]? = some (.send id false phase))
    (hmove : move ≠ .task t) (hnot : Taken.answers? ⟨c, move⟩ ≠ some id) : id ∉ c.reach move := by
  have hpending {seq : UInt64} (hinside : (Task.send id false phase).isInside = true)
      (hfiles : c.board.registry.Files seq id) : id ∉ c.reach move :=
    hholding.not_mem_reach_of_pending hlocked htask hinside hmove
      (List.mem_map_of_mem hfiles.mem) hnot
  cases h with
  | entering => exact hholding.not_mem_reach_of_task htask rfl hmove
  | registering => exact hholding.not_mem_reach_of_task htask rfl hmove
  | addressing _ hfiles => exact hpending rfl hfiles
  | writing hfiles => exact hpending rfl hfiles
  | withdrawing hfiles => exact hpending rfl hfiles
  | finishing => exact hholding.not_mem_reach_of_task htask rfl hmove
  | leaving hcall hfinished => exact hholding.not_mem_reach_of_finished hcall hfinished
  | returned hcall hfinished => exact hholding.not_mem_reach_of_finished hcall hfinished

variable [ByteStream σ]

omit [ByteStream σ] in
/-- A calm step leaves the call in flight, unless it brings a response for it. -/
theorem Calm.files {seq : UInt64} (h : Calm c move c') (hfiles : c.board.registry.Files seq id)
    (hnot : Taken.answers? ⟨c, move⟩ ≠ some id) : c'.board.registry.Files seq id := by
  obtain hsame | ⟨response, other, rfl, hat, hfind, hless⟩ := h.pending
  · exact ⟨hsame ▸ hfiles.mem, hsame ▸ hfiles.alone⟩
  · simp only [Taken.answers?, hat] at hnot
    have hne : response.seq ≠ seq := fun heq => hnot (heq ▸ hfiles.find?)
    have hkept := hfiles.remove_of_ne hne
    exact ⟨hless ▸ hkept.mem, hless ▸ hkept.alone⟩

/-- What is known of the call stays so, whatever the others do, as long as no response comes for
it. -/
theorem Failing.keep (h : Failing c.board c.header id f phase) (hholding : c.Holding)
    (hlocked : c.Locked) (htask : c.tasks[t]? = some (.send id false phase))
    (heffect : Effect c move c') (hmove : move ≠ .task t) (hnot : Taken.answers? ⟨c, move⟩ ≠ some id) :
    Failing c'.board c'.header id f phase := by
  have hsame : c'.board.call? id = c.board.call? id := by
    obtain ⟨call, hcall⟩ := hlocked.exists_call htask
    exact heffect.call?_eq (h.not_mem_reach hholding hlocked htask hmove hnot)
      (List.getElem?_eq_some_iff.mp hcall).1
  cases h with
  | entering => exact .entering
  | registering => exact .registering
  | addressing hcall hfiles =>
      exact .addressing (hsame.trans hcall)
        ((hlocked.calm htask rfl heffect hmove).files hfiles hnot)
  | writing hfiles =>
      have hcalm := hlocked.calm htask rfl heffect hmove
      exact .writing (hcalm.header.symm ▸ hcalm.files hfiles hnot)
  | withdrawing hfiles =>
      have hcalm := hlocked.calm htask rfl heffect hmove
      exact .withdrawing (hcalm.header.symm ▸ hcalm.files hfiles hnot)
  | finishing hcall herror => exact .finishing (hsame.trans hcall) herror
  | leaving hcall hfinished herror => exact .leaving (hsame.trans hcall) hfinished herror
  | returned hcall hfinished herror => exact .returned (hsame.trans hcall) hfinished herror

/-- Writing the request of a call fails with this fault, and leaves the connection as it was, but
for what may have happened to it from the outside meanwhile. -/
def FailsToWrite (outside : σ → σ → Prop) (f : Fault) (c : Client σ ρ) (call : Call ρ) : Prop :=
  (c.codec.write c.header call.args).2.2 = some f ∧
    ((c.codec.write c.header call.args).1.stream = c.codec.stream ∨
      outside c.codec.stream (c.codec.write c.header call.args).1.stream)

/-- Whether the write of a request fails can be found out. -/
instance [DecidableEq σ] {outside : σ → σ → Prop} [DecidableRel outside] (f : Fault)
    (c : Client σ ρ) (call : Call ρ) : Decidable (FailsToWrite outside f c call) :=
  inferInstanceAs (Decidable (_ ∧ _))

/-- In this step of a thread calls can be made and the next number is free, if it registers its
call, and the write fails, if it writes the request. -/
def Taken.Fails (outside : σ → σ → Prop) (t : TaskId) (f : Fault) (s : Taken σ ρ) : Prop :=
  match s.move with
  | .task mover => mover = t →
      match s.before.tasks[t]? with
      | some (.send _ _ .registering) =>
          s.before.isAvailable = true ∧
            s.before.board.registry.find? s.before.board.registry.nextSeq = none
      | some (.send id _ .writing) =>
          ∀ call ∈ s.before.board.call? id, FailsToWrite outside f s.before call
      | _ => True
  | _ => True

instance [DecidableEq σ] {outside : σ → σ → Prop} [DecidableRel outside] (t : TaskId) (f : Fault)
    (s : Taken σ ρ) : Decidable (s.Fails outside t f) := by
  unfold Taken.Fails
  repeat' split
  all_goals infer_instance

end Failing

/-! ## Going on as if the thread did not -/

/-- The client after one number has been skipped. -/
def skip (c : Client σ ρ) : Client σ ρ :=
  { c with board := { c.board with registry := c.board.registry.passedOver } }

variable [ByteStream σ]

/-- A walk on which numbers are skipped: how many is on record, and the moves are. -/
inductive Detour (outside : σ → σ → Prop) (c₀ : Client σ ρ) :
    Nat → List (Taken σ ρ) → Client σ ρ → Prop where
  | start : Detour outside c₀ 0 [] c₀
  | step {skipped : Nat} {steps : List (Taken σ ρ)} {c c' : Client σ ρ}
      (detour : Detour outside c₀ skipped steps c) (move : Move ρ) (h : c.step move = .moved c') :
      Detour outside c₀ skipped (steps ++ [⟨c, move⟩]) c'
  | outside {skipped : Nat} {steps : List (Taken σ ρ)} {c : Client σ ρ}
      (detour : Detour outside c₀ skipped steps c) (stream : σ)
      (h : outside c.codec.stream stream) : Detour outside c₀ skipped steps (c.withStream stream)
  | skip {skipped : Nat} {steps : List (Taken σ ρ)} {c : Client σ ρ}
      (detour : Detour outside c₀ skipped steps c) : Detour outside c₀ (skipped + 1) steps c.skip

/-- The connection may be left alone, too. -/
theorem Detour.restream {outside : σ → σ → Prop} {c₀ c : Client σ ρ} {skipped : Nat}
    {steps : List (Taken σ ρ)} (h : Detour outside c₀ skipped steps c) {stream : σ}
    (hstream : stream = c.codec.stream ∨ outside c.codec.stream stream) :
    Detour outside c₀ skipped steps (c.withStream stream) := by
  obtain rfl | hout := hstream
  · exact h
  · exact h.outside stream hout

/-- What is done in a step, and what happens. -/
def Taken.deed (s : Taken σ ρ) : Move ρ × List (Event ρ) := (s.move, s.events)

/-- The step is one of this thread, or the call is collected in it. -/
def Taken.concerns (t : TaskId) (id : CallId) (s : Taken σ ρ) : Bool :=
  (match s.move with
    | .task mover => mover == t
    | _ => false) || s.before.collects? s.move == some id

omit [ByteStream σ] in
theorem Taken.concerns_eq_false {c : Client σ ρ} {move : Move ρ} {t : TaskId} {id : CallId}
    (hmove : move ≠ .task t) (hcollect : c.collects? move ≠ some id) :
    Taken.concerns t id ⟨c, move⟩ = false := by
  have hnot : (c.collects? move == some id) = false := by simpa using hcollect
  rw [Taken.concerns, hnot, Bool.or_false]
  cases move with
  | task mover => exact beq_eq_false_iff_ne.mpr fun heq => hmove (congrArg Move.task heq)
  | _ => rfl

/-- How far a thread has come whose request cannot be written, and a client in which the others have
come as far without it. -/
structure Setback (outside : σ → σ → Prop) (a : Attempt ρ) (f : Fault) (c₀ : Client σ ρ)
    (steps mirror : List (Taken σ ρ)) (c d : Client σ ρ) (phase : SendPhase) : Prop where
  task : c.tasks[a.task]? = some (.send a.id false phase)
  failing : Failing c.board c.header a.id f phase
  finishes : (finishes (steps.flatMap Taken.events)).count a.id = phase.isDone.toNat
  detour : Detour outside c₀ phase.isNumbered.toNat mirror d
  deeds : mirror.map Taken.deed =
    (steps.filter fun s => !s.concerns a.task a.id).map Taken.deed
  spared : Spared a c d

section Setback

variable {outside : σ → σ → Prop} {a : Attempt ρ} {f : Fault} {c₀ c c' d : Client σ ρ}
  {steps mirror : List (Taken σ ρ)} {phase : SendPhase}

/-- The thread goes on, and what it does comes to `g`, as far as the others are concerned. -/
theorem Setback.advance {next : SendPhase} {c₁ : Client σ ρ} {call : Call ρ}
    (g : Client σ ρ → Client σ ρ) (h : Setback outside a f c₀ steps mirror c d phase)
    (hcall : c.board.call? a.id = some call) (htasks : c₁.tasks = c.tasks)
    (hfailing : Failing c₁.board c₁.header a.id f next)
    (hfinishes : (Client.finishes (c.observeSend a.id call phase)).count a.id +
      phase.isDone.toNat = next.isDone.toNat)
    (hdetour : Detour outside c₀ next.isNumbered.toNat mirror (g d))
    (hlog : c.log.Sublist c₁.log) (hagrees : ∀ header, c.Agrees a header → c₁.Agrees a header)
    (hsame : ∀ header log, c₁.sparing a header log = g (c.sparing a header log)) :
    Setback outside a f c₀ (steps ++ [⟨c, .task a.task⟩]) mirror
      (c₁.setTask a.task (.send a.id false next)) (g d) next := by
  have hlt := (List.getElem?_eq_some_iff.mp (htasks.symm ▸ h.task)).1
  have hobserve : c.observe (.task a.task) = c.observeSend a.id call phase := by
    simp only [observe, h.task, hcall, Option.elim_some]
  refine ⟨List.getElem?_set_self hlt, hfailing, ?_, hdetour, ?_, ?_⟩
  · rw [List.flatMap_append, List.flatMap_singleton, finishes_append, List.count_append, h.finishes,
      Nat.add_comm, Taken.events, hobserve]
    exact hfinishes
  · rw [List.filter_append, List.map_append, ← h.deeds]
    simp [Taken.concerns]
  · refine h.spared.map g (fun header log => ?_) hlog fun header hmine =>
      (hagrees header hmine).setTask_self _
    rw [sparing_setTask_self]
    exact hsame header log

/-- The thread goes on. -/
theorem Setback.turn (h : Setback outside a f c₀ steps mirror c d phase) (hholding : c.Holding)
    (hlocked : c.Locked) (heffect : Effect c (.task a.task) c')
    (hfails : Taken.Fails outside a.task f ⟨c, .task a.task⟩) :
    ∃ next d', Setback outside a f c₀ (steps ++ [⟨c, .task a.task⟩]) mirror c' d' next := by
  have htask := h.task
  simp only [Taken.Fails, htask, forall_const] at hfails
  obtain ⟨call, events, hcall, hchange⟩ | ⟨rfl, havail, htaken, -⟩ := heffect.of_send htask
  · cases h.failing with
    | entering =>
        cases hchange with
        | enter hlock =>
            exact ⟨_, _, h.advance id hcall rfl .registering rfl h.detour (List.Sublist.refl _)
              (fun _ hagrees => hagrees.congr rfl rfl) fun _ _ => by simp [sparing, hlock]⟩
    | registering =>
        obtain ⟨havail, hfree⟩ := hfails
        cases hchange with
        | refuse hno =>
            rw [havail] at hno
            contradiction
        | register =>
            have hmine : (c.board.registered a.id).call? a.id =
                some { call with seq := c.board.registry.nextSeq } := by
              rw [call?_registered, if_pos rfl, hcall, Option.map_some]
            have hfiles : (c.board.registered a.id).registry.Files c.board.registry.nextSeq a.id :=
              Registry.files_filed hfree (hholding.not_mem_pending_of_task htask rfl)
            refine ⟨_, _, h.advance skip hcall rfl (.addressing hmine hfiles) ?_ h.detour.skip
              (List.Sublist.refl _) (fun _ hagrees => hagrees.congr rfl rfl) fun _ _ => ?_⟩
            · rw [observeSend, if_pos havail]
              rfl
            · simp only [sparing, sparing_registered_self, skip]
    | addressing hmine hfiles =>
        obtain rfl := Option.some.inj (hcall.symm.trans hmine)
        cases hchange
        exact ⟨_, _, h.advance id hcall rfl (.writing hfiles) rfl h.detour (List.Sublist.refl _)
          (fun _ _ => hlocked.agrees htask rfl rfl) fun _ _ => rfl⟩
    | writing hfiles =>
        obtain ⟨hfault, hstream⟩ := hfails call hcall
        cases hchange with
        | write hwrite =>
            rw [hwrite] at hfault
            contradiction
        | @fail codec entries f' hwrite =>
            rw [hwrite] at hfault hstream
            obtain rfl := Option.some.inj hfault
            refine ⟨_, _, h.advance (·.withStream codec.stream) hcall rfl (.withdrawing hfiles) ?_
              (h.detour.restream (h.spared.codec_eq ▸ hstream)) (List.sublist_append_left ..)
              (fun _ hagrees => hagrees.congr rfl rfl) fun _ _ => ?_⟩
            · rw [observeSend, writeRequest, hwrite]
              rfl
            · rw [Codec.withStream_of_write_fault hwrite]
              rfl
    | withdrawing hfiles =>
        cases hchange with
        | withdraw hfind =>
            obtain rfl := Option.some.inj (hfiles.find?.symm.trans hfind)
            exact ⟨_, _, h.advance id hcall rfl (.finishing (call?_modifyCall_self hcall _) rfl) rfl
              h.detour (List.sublist_append_left ..) (fun _ hagrees => hagrees.congr rfl rfl)
              fun _ _ => sparing_withBoard (sparing_withdrawn hfiles)⟩
        | answered hnone =>
            rw [hfiles.find?] at hnone
            contradiction
    | finishing hmine herror =>
        obtain rfl := Option.some.inj (hcall.symm.trans hmine)
        cases hchange with
        | @finish _ b hfinish =>
            have hdone : b.call? a.id = some { call with finished := true } := by
              obtain ⟨_, queue, q, -, -, -, -, -, rfl⟩ := finish_delivered hfinish
              rw [call?_delivered, if_pos rfl, hcall, Option.map_some]
            refine ⟨_, _, h.advance id hcall rfl (.leaving hdone rfl herror) ?_ h.detour
              (List.Sublist.refl _) (fun _ hagrees => hagrees.congr rfl rfl) fun _ _ =>
                sparing_withBoard (sparing_finish_self hfinish)⟩
            simp [observeSend, Client.finishes, SendPhase.isDone]
    | leaving hmine hfinished herror =>
        cases hchange
        have hlock := hlocked.lock_eq htask rfl
        exact ⟨_, _, h.advance id hcall rfl (.returned hmine hfinished herror) rfl h.detour
          (List.Sublist.refl _) (fun _ hagrees => hagrees.congr rfl rfl) fun _ _ => by
            simp [sparing, hlock]⟩
    | returned => contradiction
  · rw [hfails.2] at htaken
    contradiction

/-- A call is finished by whoever holds it. -/
theorem mem_reach_of_finishes {move : Move ρ} {id : CallId}
    (h : id ∈ Client.finishes (c.observe move)) : id ∈ c.reach move := by
  cases move with
  | go r queue =>
      simp only [observe] at h
      split at h <;> contradiction
  | task t =>
      simp only [observe] at h
      split at h
      case h_2 => contradiction
      case h_1 own waits phase htask =>
        cases hcall : c.board.call? own with
        | none => simp [hcall, Client.finishes] at h
        | some call =>
            rw [hcall, Option.elim_some] at h
            cases phase with
            | finishing other =>
                obtain rfl : id = other := by simpa [observeSend, Client.finishes] using h
                simp [reach, htask, Task.held]
            | registering =>
                rw [observeSend] at h
                split at h <;> contradiction
            | writing =>
                rw [observeSend] at h
                split at h <;> contradiction
            | _ => contradiction
  | receive =>
      simp only [observe, observeReceiver, observeBody] at h
      split at h
      case h_1 => contradiction
      case h_2 => split at h <;> contradiction
      case h_3 => split at h <;> contradiction
      case h_4 other fault hat =>
        obtain rfl : id = other := by simpa [Client.finishes] using h
        simp [reach, hat, Receiver.held]
      case h_5 f other ids hat =>
        obtain rfl : id = other := by simpa [Client.finishes] using h
        simp [reach, hat, Receiver.held]
      case h_6 => contradiction
  | _ => contradiction

/-- The others go on, as they do without the thread. -/
theorem Setback.others {move : Move ρ} (h : Setback outside a f c₀ steps mirror c d phase)
    (hholding : c.Holding) (hlocked : c.Locked) (hmove : move ≠ .task a.task)
    (hnot : Taken.answers? ⟨c, move⟩ ≠ some a.id)
    (hcollect : c.collects? move = some a.id → ∃ queue, move = .collect queue)
    (hstep : c.step move = .moved c') :
    ∃ mirror' d', Setback outside a f c₀ (steps ++ [⟨c, move⟩]) mirror' c' d' phase := by
  have htask := h.task
  have hlt := (List.getElem?_eq_some_iff.mp htask).1
  have heffect := effect_of_step hholding.readsReply hstep
  have hreach := h.failing.not_mem_reach hholding hlocked htask hmove hnot
  have hfailing := h.failing.keep hholding hlocked htask heffect hmove hnot
  have htask' := (heffect.task_eq hmove hlt).trans htask
  have hfinishes : (Client.finishes
      ((steps ++ [Taken.mk c move]).flatMap Taken.events)).count a.id =
        phase.isDone.toNat := by
    have hnone : (Client.finishes (c.observe move)).count a.id = 0 :=
      List.count_eq_zero.mpr fun hmem => hreach (mem_reach_of_finishes hmem)
    rw [List.flatMap_append, List.flatMap_singleton, finishes_append, List.count_append, h.finishes,
      Taken.events, hnone, Nat.add_zero]
  by_cases hmine : c.collects? move = some a.id
  · obtain ⟨queue, rfl⟩ := hcollect hmine
    cases heffect with
    | alone halone => simp [Move.alone?] at halone
    | @collect _ other b hpop =>
        obtain rfl : other = a.id := by simpa [collects?, collectsFrom?, hpop] using hmine
        refine ⟨mirror, d, htask', hfailing, hfinishes, h.detour, ?_, ?_⟩
        · rw [List.filter_append, List.map_append, ← h.deeds]
          simp [Taken.concerns, hmine]
        · exact h.spared.map id (fun _ _ => sparing_withBoard (sparing_pop?_self hpop))
            (List.Sublist.refl _) fun _ hagrees => hagrees.congr rfl rfl
  · obtain ⟨d', hd, hspared⟩ := h.spared.step hholding hlocked htask
      (h.failing.lock_eq hholding hlocked htask) hmove hreach hmine hstep
    refine ⟨mirror ++ [Taken.mk d move], d', htask', hfailing, hfinishes, h.detour.step move hd, ?_,
      hspared⟩
    have hsame := h.spared.observe_eq hlocked htask hmove
    rw [List.filter_append, List.map_append, List.map_append, h.deeds]
    simp [Taken.concerns_eq_false hmove hmine, Taken.deed, Taken.events, hsame]

end Setback

/-! ## Being beaten by the receiver -/

/-- Where a thread can be whose call the receiver has taken out: there is nothing under its number
any more. -/
inductive Beaten (b : Board ρ) (header : Header) (id : CallId) : SendPhase → Prop where
  | addressing {call : Call ρ} (hcall : b.call? id = some call)
      (hgone : b.registry.find? call.seq = none) : Beaten b header id .addressing
  | writing (hgone : b.registry.find? header.seq = none) : Beaten b header id .writing
  | withdrawing {f : Fault} (hgone : b.registry.find? header.seq = none) :
      Beaten b header id (.withdrawing f)
  | leaving : Beaten b header id .leaving
  | returned : Beaten b header id (.returned none)

section Beaten

variable {c c' : Client σ ρ} {move : Move ρ} {t : TaskId} {id : CallId} {f : Fault}
  {phase : SendPhase}

omit [ByteStream σ] in
/-- A calm step puts nothing under a number. -/
theorem Calm.find?_eq_none {seq : UInt64} (h : Calm c move c')
    (hgone : c.board.registry.find? seq = none) : c'.board.registry.find? seq = none := by
  rw [Registry.find?, List.lookup_eq_none_iff] at hgone ⊢
  obtain hsame | ⟨response, other, -, -, -, hless⟩ := h.pending
  · exact hsame ▸ hgone
  · rw [hless]
    exact fun e he => hgone e (List.mem_filter.mp he).1

/-- The others do not bring the call back. -/
theorem Beaten.keep (h : Beaten c.board c.header id phase) (hlocked : c.Locked)
    (htask : c.tasks[t]? = some (.send id false phase)) (heffect : Effect c move c')
    (hmove : move ≠ .task t) : Beaten c'.board c'.header id phase := by
  cases h with
  | @addressing call hcall hgone =>
      have hcalm := hlocked.calm htask rfl heffect hmove
      obtain ⟨call', hcall', hlabel⟩ := hcalm.grows id _ hcall
      have hseq : call'.seq = call.seq := congrArg Prod.snd hlabel
      exact .addressing hcall' (hcalm.find?_eq_none (hseq ▸ hgone))
  | writing hgone =>
      have hcalm := hlocked.calm htask rfl heffect hmove
      exact .writing (hcalm.header.symm ▸ hcalm.find?_eq_none hgone)
  | withdrawing hgone =>
      have hcalm := hlocked.calm htask rfl heffect hmove
      exact .withdrawing (hcalm.header.symm ▸ hcalm.find?_eq_none hgone)
  | leaving => exact .leaving
  | returned => exact .returned

/-- The thread goes on to its return, and leaves the board alone. -/
theorem Beaten.turn (h : Beaten c.board c.header id phase)
    (htask : c.tasks[t]? = some (.send id false phase)) (heffect : Effect c (.task t) c') :
    c'.board = c.board ∧
      ∃ next, c'.tasks[t]? = some (.send id false next) ∧ Beaten c'.board c'.header id next := by
  have hlt := (List.getElem?_eq_some_iff.mp htask).1
  obtain ⟨call, events, hcall, hchange⟩ | ⟨rfl, -⟩ := heffect.of_send htask
  · cases h with
    | addressing hmine hgone =>
        obtain rfl := Option.some.inj (hcall.symm.trans hmine)
        cases hchange
        exact ⟨rfl, _, List.getElem?_set_self hlt, .writing hgone⟩
    | writing hgone =>
        cases hchange with
        | write => exact ⟨rfl, _, List.getElem?_set_self hlt, .leaving⟩
        | fail => exact ⟨rfl, _, List.getElem?_set_self hlt, .withdrawing hgone⟩
    | withdrawing hgone =>
        cases hchange with
        | withdraw hfind =>
            rw [hgone] at hfind
            contradiction
        | answered => exact ⟨rfl, _, List.getElem?_set_self hlt, .leaving⟩
    | leaving =>
        cases hchange
        exact ⟨rfl, _, List.getElem?_set_self hlt, .returned⟩
    | returned => contradiction
  · contradiction

/-- When the receiver takes the call out, there is nothing left under its number. -/
theorem Failing.beaten (h : Failing c.board c.header id f phase) (hholding : c.Holding)
    (hlocked : c.Locked) (htask : c.tasks[t]? = some (.send id false phase))
    (heffect : Effect c move c') (hanswers : Taken.answers? ⟨c, move⟩ = some id) :
    Beaten c'.board c'.header id phase := by
  obtain ⟨rfl, response, hat, hfind⟩ := Taken.answers?_eq_some.mp hanswers
  have hmem := mem_pending_of_find? hfind
  have hgone : c'.board.registry.find? response.seq = none := by
    obtain ⟨events, hchange⟩ := heffect.of_receive
    rw [hat] at hchange
    cases hchange with
    | stray hnone =>
        rw [hnone] at hfind
        contradiction
    | matchError => exact Registry.find?_remove_self ..
    | matchReply => exact Registry.find?_remove_self ..
  have hmove : Move.receive (ρ := ρ) ≠ .task t := nofun
  cases h with
  | entering => exact absurd hmem (hholding.not_mem_pending_of_task htask rfl)
  | registering => exact absurd hmem (hholding.not_mem_pending_of_task htask rfl)
  | @addressing call hcall hfiles =>
      obtain ⟨call', hcall', hlabel⟩ := (hlocked.calm htask rfl heffect hmove).grows id _ hcall
      have hseq : call'.seq = call.seq := congrArg Prod.snd hlabel
      rw [hfiles.seq_eq hfind, ← hseq] at hgone
      exact .addressing hcall' hgone
  | writing hfiles =>
      rw [hfiles.seq_eq hfind, ← (hlocked.calm htask rfl heffect hmove).header] at hgone
      exact .writing hgone
  | withdrawing hfiles =>
      rw [hfiles.seq_eq hfind, ← (hlocked.calm htask rfl heffect hmove).header] at hgone
      exact .withdrawing hgone
  | finishing => exact absurd hmem (hholding.not_mem_pending_of_task htask rfl)
  | leaving hcall hfinished =>
      exact absurd hmem (hholding.not_mem_pending_of_finished hcall hfinished)
  | returned hcall hfinished =>
      exact absurd hmem (hholding.not_mem_pending_of_finished hcall hfinished)

end Beaten

/-! ## Every walk -/

section All

variable {outside : σ → σ → Prop} {codec : Codec σ} {p : Preamble} {log : List Log.Entry}
  {order : Registry.Order} {a : Attempt ρ} {f : Fault} {c₀ c : Client σ ρ}
  {past steps : List (Taken σ ρ)}

theorem Walk.delivers (walk : Walk outside (Client.start codec p log order) steps c) :
    c.board.Delivers := by
  have hstart : (Client.start codec p log order : Client σ ρ).board.Delivers := by
    intro q hq
    contradiction
  exact (walk.induct (P := fun _ c => c.board.Delivers) (holding_start codec p log order) hstart
    (fun _ _ h heffect => heffect.traffic.delivers h) fun _ h => h).2

/-- What becomes of a thread whose request cannot be written as long as no response comes for its
call. -/
theorem Walk.setback (begun : Walk outside (Client.start codec p log order) past c₀)
    (walk : Walk outside c₀ steps c)
    (hcall : c₀.board.call? a.id = some a.made)
    (htask : c₀.tasks[a.task]? = some (.send a.id false .entering))
    (hqueues : ∀ q ∈ c₀.board.queues, a.id ∉ q.items)
    (hfails : ∀ s ∈ steps, s.Fails outside a.task f)
    (hcollect : ∀ s ∈ steps, s.before.collects? s.move = some a.id →
      ∃ queue, s.move = .collect queue)
    (hnot : ∀ s ∈ steps, s.answers? ≠ some a.id) :
    ∃ mirror d phase, Setback outside a f c₀ steps mirror c d phase := by
  induction walk with
  | start =>
      refine ⟨[], c₀, .entering, htask, .entering, rfl, .start, rfl, ?_⟩
      exact spared_self hcall htask begun.holding begun.locked hqueues
  | @step steps c c' walk move hstep ih =>
      obtain ⟨mirror, d, phase, h⟩ := ih (fun s hs => hfails s (List.mem_append_left _ hs))
        (fun s hs => hcollect s (List.mem_append_left _ hs))
        fun s hs => hnot s (List.mem_append_left _ hs)
      have hlast : Taken.mk c move ∈ steps ++ [⟨c, move⟩] := by simp
      have hholding := (begun.trans walk).holding
      have hlocked := (begun.trans walk).locked
      by_cases hmove : move = .task a.task
      · subst hmove
        obtain ⟨next, d', h'⟩ := h.turn hholding hlocked
          (effect_of_step hholding.readsReply hstep) (hfails _ hlast)
        exact ⟨mirror, d', next, h'⟩
      · obtain ⟨mirror', d', h'⟩ := h.others hholding hlocked hmove (hnot _ hlast)
          (hcollect _ hlast) hstep
        exact ⟨mirror', d', phase, h'⟩
  | outside _ stream hout ih =>
      obtain ⟨mirror, d, phase, h⟩ := ih hfails hcollect hnot
      refine ⟨mirror, d.withStream stream, phase, h.task, h.failing, h.finishes,
        h.detour.outside stream (h.spared.codec_eq ▸ hout), h.deeds, ?_⟩
      exact h.spared.map (·.withStream stream) (fun _ _ => rfl) (List.Sublist.refl _)
        fun _ hagrees => hagrees.congr rfl rfl

/-- What becomes of the thread once the receiver has taken the call out. -/
theorem Walk.beaten (begun : Walk outside (Client.start codec p log order) past c₀)
    (walk : Walk outside c₀ steps c)
    (hcall : c₀.board.call? a.id = some a.made)
    (htask : c₀.tasks[a.task]? = some (.send a.id false .entering))
    (hqueues : ∀ q ∈ c₀.board.queues, a.id ∉ q.items)
    (hfails : ∀ s ∈ steps, s.Fails outside a.task f)
    (hcollect : ∀ s ∈ steps, s.before.collects? s.move = some a.id →
      ∃ queue, s.move = .collect queue)
    (hanswered : ∃ s ∈ steps, s.answers? = some a.id) :
    ∃ phase, c.tasks[a.task]? = some (.send a.id false phase) ∧
      Beaten c.board c.header a.id phase := by
  induction walk with
  | start =>
      obtain ⟨s, hs, -⟩ := hanswered
      contradiction
  | outside _ _ _ ih => exact ih hfails hcollect hanswered
  | @step steps c c' walk move hstep ih =>
      have hfails' : ∀ s ∈ steps, s.Fails outside a.task f :=
        fun s hs => hfails s (List.mem_append_left _ hs)
      have hcollect' : ∀ s ∈ steps, s.before.collects? s.move = some a.id →
          ∃ queue, s.move = .collect queue := fun s hs => hcollect s (List.mem_append_left _ hs)
      have hholding := (begun.trans walk).holding
      have hlocked := (begun.trans walk).locked
      have heffect := effect_of_step hholding.readsReply hstep
      by_cases hbefore : ∃ s ∈ steps, s.answers? = some a.id
      · obtain ⟨phase, htask', hbeaten⟩ := ih hfails' hcollect' hbefore
        have hlt := (List.getElem?_eq_some_iff.mp htask').1
        by_cases hmove : move = .task a.task
        · subst hmove
          obtain ⟨-, next, hnext⟩ := hbeaten.turn htask' heffect
          exact ⟨next, hnext⟩
        · exact ⟨phase, (heffect.task_eq hmove hlt).trans htask',
            hbeaten.keep hlocked htask' heffect hmove⟩
      · have hnot : ∀ s ∈ steps, s.answers? ≠ some a.id := fun s hs heq => hbefore ⟨s, hs, heq⟩
        obtain ⟨mirror, d, phase, h⟩ :=
          begun.setback walk hcall htask hqueues hfails' hcollect' hnot
        have hlt := (List.getElem?_eq_some_iff.mp h.task).1
        obtain ⟨s, hs, hanswers⟩ := hanswered
        obtain hold | hlast := List.mem_append.mp hs
        · exact absurd hanswers (hnot s hold)
        · obtain rfl := List.mem_singleton.mp hlast
          obtain ⟨rfl, -⟩ := Taken.answers?_eq_some.mp hanswers
          exact ⟨phase, (heffect.task_eq nofun hlt).trans h.task,
            h.failing.beaten hholding hlocked h.task heffect hanswers⟩

/-- Two clients that are the same but for what one call has come to, that it may wait in a queue,
and where its thread stands. -/
structure SameBut (t : TaskId) (id : CallId) (c d : Client σ ρ) : Prop where
  codec : d.codec = c.codec
  registry : d.board.registry = c.board.registry
  calls : ∀ other, other ≠ id → d.board.call? other = c.board.call? other
  queues : d.board.queues = c.board.queues.map (·.without id)
  tasks : ∀ other, other ≠ t → d.tasks[other]? = c.tasks[other]?
  receiver : d.receiver = c.receiver
  lock : d.lock = c.lock

/-- A client that is spared a call is the same but for it when the thread has returned. -/
theorem Setback.sameBut {mirror : List (Taken σ ρ)} {d : Client σ ρ}
    (h : Setback outside a f c₀ steps mirror c d (.returned none)) (hholding : c.Holding)
    (hlocked : c.Locked) : SameBut a.task a.id c d := by
  have hflight : a.id ∉ c.board.registry.pending.map (·.2) := by
    cases h.failing with
    | returned hcall hfinished => exact hholding.not_mem_pending_of_finished hcall hfinished
  have hlock := hlocked.lock_ne h.task rfl
  obtain ⟨hlog, hheader⟩ := h.spared
  exact ⟨rfl, Registry.without_of_not_mem hflight, fun _ hne => call?_sparing hne, rfl,
    fun _ hne => tasks_sparing hne, rfl, if_neg hlock⟩

/-- A call that has just been started waits in no queue. -/
theorem Walk.made (reached : Walk outside (Client.start codec p log order) past c) {r : Request ρ}
    {queue : Option QueueId} {waits : Bool} {t : TaskId} (ht : c.tasks.length = t)
    (hgo : c.step (.go r queue) = .moved c₀)
    (hbegun : c₀.tasks[t]? = some (.send c.board.calls.length waits .entering)) :
    (∃ made, c₀.board.call? c.board.calls.length = some made) ∧
      ∀ q ∈ c₀.board.queues, c.board.calls.length ∉ q.items := by
  have heffect := effect_of_step reached.holding.readsReply hgo
  have hold : ∀ q ∈ c.board.queues, c.board.calls.length ∉ q.items :=
    fun q hq hmem => Nat.lt_irrefl _ (reached.delivers q hq _ hmem)
  obtain ⟨-, ⟨r', capacity, _, -, -, hboard⟩ | ⟨r', given, -, -, hboard⟩ | ⟨drops, -, heq, -⟩⟩ :=
    heffect.begun hbegun (Nat.le_of_eq ht)
  · rw [hboard]
    refine ⟨⟨_, List.getElem?_concat_length⟩, fun q hq => ?_⟩
    obtain hbefore | hnew := List.mem_append.mp hq
    · exact hold q hbefore
    · rw [List.mem_singleton.mp hnew]
      exact List.not_mem_nil
  · rw [hboard]
    exact ⟨⟨_, List.getElem?_concat_length⟩, hold⟩
  · contradiction

/-- **A request that cannot be written is a matter of its own call.**  A call is started on any
client that can be reached, with any calls in flight.  When its thread comes to register it, calls
can be made and the next number is free; the write fails and takes nothing; and the call is
collected by the application, not by a thread that makes another call, which waits at a queue of its
own.  If no response is found to belong to the call before its thread returns, then by that time the
call has been finished once, with the fault of the write, and the others have come as far as they
do, step by step and with the same happening, where the thread never goes on and one number is
skipped: connection, registry, receiver and all other calls and threads are the same.  If the
receiver has found a response for the call, the thread leaves calls, queues and registry alone from
then on. -/
theorem failed_send_is_local {r : Request ρ} {queue : Option QueueId} {t : TaskId} {id : CallId}
    {c c' : Client σ ρ} (reached : Walk outside (start codec p log order) past c)
    (ht : c.tasks.length = t) (hid : c.board.calls.length = id)
    (hgo : c.step (.go r queue) = .moved c₀)
    (hbegun : c₀.tasks[t]? = some (.send id false .entering)) (walk : Walk outside c₀ steps c')
    (hfails : ∀ s ∈ steps, s.Fails outside t f)
    (hcollect : ∀ s ∈ steps, s.before.collects? s.move = some id →
      ∃ queue, s.move = .collect queue) :
    ((∀ s ∈ steps, s.answers? ≠ some id) →
      c'.tasks[t]? = some (.send id false (.returned none)) →
      (finishes (steps.flatMap Taken.events)).count id = 1 ∧
      (∃ call, c'.board.call? id = some call ∧ call.finished = true ∧
        call.error =
          { code := .sendFailure, message := .ofText "writing request", details := f.message }) ∧
      ∃ mirror d, Detour outside c₀ 1 mirror d ∧
        mirror.map Taken.deed = (steps.filter fun s => !s.concerns t id).map Taken.deed ∧
        SameBut t id c' d) ∧
    ((∃ s ∈ steps, s.answers? = some id) →
      ∀ c'', c'.step (.task t) = .moved c'' → c''.board = c'.board) := by
  subst hid
  have begun := reached.step _ hgo
  obtain ⟨⟨made, hcall⟩, hqueues⟩ := reached.made ht hgo hbegun
  let a : Attempt ρ := ⟨t, c.board.calls.length, made⟩
  have hholding := (begun.trans walk).holding
  refine ⟨fun hnot hreturned => ?_, fun hanswered c'' hstep => ?_⟩
  · obtain ⟨mirror, d, phase, h⟩ :=
      begun.setback (a := a) walk hcall hbegun hqueues hfails hcollect hnot
    obtain ⟨-, -, rfl⟩ := Task.send.inj (Option.some.inj (h.task.symm.trans hreturned))
    refine ⟨h.finishes, ?_, mirror, d, h.detour, h.deeds,
      h.sameBut hholding (begun.trans walk).locked⟩
    cases h.failing with
    | returned hmine hfinished herror => exact ⟨_, hmine, hfinished, herror⟩
  · obtain ⟨phase, htask, hbeaten⟩ :=
      begun.beaten (a := a) walk hcall hbegun hqueues hfails hcollect hanswered
    exact (hbeaten.turn htask (effect_of_step hholding.readsReply hstep)).1

end All

/-- The second of three requests cannot be written, and its call fails by itself: the others are
where they would be without it.  On another connection the response for a call arrives while its
request is being written, which fails, and the thread leaves the call to the receiver. -/
theorem failed_send_is_local_two_connections :
    let kept (s s' : Faltering) : Prop := s'.outgoing = s.outgoing
    let kept' (s s' : MemoryStream) : Prop := s'.outgoing = s.outgoing
    (∃ (past steps mirror : List (Taken Faltering Unit)) (c c₀ c' d : Client Faltering Unit),
      Walk kept (start { stream := { script := [none, some (0, .system 104)] } } {} []) past c ∧
      c.step (.go { reply := () } none) = .moved c₀ ∧ Walk kept c₀ steps c' ∧
      (∀ s ∈ steps, s.Fails kept 1 (.system 104)) ∧
      c'.tasks[1]? = some (.send 1 false (.returned none)) ∧
      c'.board.registry.pending = [(1, 0), (3, 2)] ∧
      (finishes (steps.flatMap Taken.events)).count 1 = 1 ∧
      (∃ call, c'.board.call? 1 = some call ∧ call.error = sendFailure (.system 104)) ∧
      Detour kept c₀ 1 mirror d ∧ mirror.length = 6 ∧ SameBut 1 1 c' d) ∧
    ∃ (steps : List (Taken MemoryStream Unit)) (c₀ c c' : Client MemoryStream Unit),
      (start { stream := {
        writeFault := some (.system 104)
        duringWrite := Frame.encode ({ seq := 1 } : Header).encode } } {} []).step
          (.go { reply := () } none) = .moved c₀ ∧
      Walk kept' c₀ steps c ∧ (∀ s ∈ steps, s.Fails kept' 0 (.system 104)) ∧
      (∃ s ∈ steps, s.answers? = some 0) ∧
      c.tasks[0]? = some (.send 0 false (.withdrawing (.system 104))) ∧
      c.step (.task 0) = .moved c' ∧ c'.board = c.board := by
  intro kept kept'
  constructor
  · let stream : Faltering := { script := [none, some (0, .system 104)] }
    have hcourse : ((start { stream } {} []).course
        ([.go { reply := () } none] ++ List.replicate 5 (.task 0))).any (fun (_, c) =>
          c.tasks.length = 1 && c.board.calls.length = 1 &&
          (c.course [.go { reply := () } none]).any fun (_, c₀) =>
            c₀.tasks[1]? = some (.send 1 false .entering) &&
            (c₀.course (List.replicate 7 (.task 1) ++ [.go { reply := () } none] ++
              List.replicate 5 (.task 2))).any fun (steps, c') =>
                (steps.all fun s =>
                  s.Fails (fun s s' => s'.outgoing = s.outgoing) 1 (.system 104) &&
                    s.before.collects? s.move ≠ some 1 && s.answers? ≠ some 1) &&
                c'.tasks[1]? = some (.send 1 false (.returned none)) &&
                c'.board.registry.pending = [(1, 0), (3, 2)] &&
                (steps.filter fun s => !s.concerns 1 1).length = 6) = true := by
      decide +kernel
    obtain ⟨past, c, reached, hchecks⟩ := exists_walk_of_course kept hcourse
    simp only [Bool.and_eq_true, decide_eq_true_eq] at hchecks
    obtain ⟨⟨ht, hid⟩, hnext⟩ := hchecks
    obtain ⟨c₀, hgo, hchecks⟩ := exists_step_of_course hnext
    simp only [Bool.and_eq_true, decide_eq_true_eq] at hchecks
    obtain ⟨hbegun, hnext⟩ := hchecks
    obtain ⟨steps, c', walk, hchecks⟩ := exists_walk_of_course kept hnext
    simp only [Bool.and_eq_true, decide_eq_true_eq, List.all_eq_true] at hchecks
    obtain ⟨⟨⟨hall, hreturned⟩, hpending⟩, hlength⟩ := hchecks
    obtain ⟨hcount, ⟨call, hcall, -, herror⟩, mirror, d, detour, hdeeds, hsame⟩ :=
      (failed_send_is_local reached ht hid hgo hbegun walk (fun s hs => (hall s hs).1.1)
        fun s hs heq => absurd heq (hall s hs).1.2).1 (fun s hs => (hall s hs).2) hreturned
    refine ⟨past, steps, mirror, c, c₀, c', d, reached, hgo, walk, fun s hs => (hall s hs).1.1,
      hreturned, hpending, hcount, ⟨call, hcall, herror⟩, detour, ?_, hsame⟩
    simpa [hlength] using congrArg List.length hdeeds
  · let stream : MemoryStream :=
      { writeFault := some (.system 104)
        duringWrite := Frame.encode ({ seq := 1 } : Header).encode }
    have hcourse : ((start { stream } {} []).course [.go { reply := () } none]).any
        (fun (_, c₀) =>
          c₀.tasks[0]? = some (.send 0 false .entering) &&
          (c₀.course (List.replicate 4 (.task 0) ++ [.receive, .receive])).any fun (steps, c) =>
            (steps.all fun s => s.Fails (fun s s' => s'.outgoing = s.outgoing) 0 (.system 104) &&
              s.before.collects? s.move ≠ some 0) &&
            (steps.any fun s => s.answers? = some 0) &&
            c.tasks[0]? = some (.send 0 false (.withdrawing (.system 104))) &&
            (c.course [.task 0]).any fun _ => true) = true := by
      decide +kernel
    obtain ⟨c₀, hgo, hchecks⟩ := exists_step_of_course hcourse
    simp only [Bool.and_eq_true, decide_eq_true_eq] at hchecks
    obtain ⟨hbegun, hnext⟩ := hchecks
    obtain ⟨steps, c, walk, hchecks⟩ := exists_walk_of_course kept' hnext
    simp only [Bool.and_eq_true, decide_eq_true_eq, List.all_eq_true, List.any_eq_true] at hchecks
    obtain ⟨⟨⟨hall, hanswered⟩, hat⟩, hnext⟩ := hchecks
    obtain ⟨c', hstep, -⟩ := exists_step_of_course hnext
    exact ⟨steps, c₀, c, c', hgo, walk, fun s hs => (hall s hs).1, hanswered, hat, hstep,
      (failed_send_is_local .start rfl rfl hgo hbegun walk (fun s hs => (hall s hs).1)
        fun s hs heq => absurd heq (hall s hs).2).2 hanswered c' hstep⟩

end Client

end RemoteCalls
