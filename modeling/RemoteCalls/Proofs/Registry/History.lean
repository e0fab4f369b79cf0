import Mathlib.Data.List.Nodup
import RemoteCalls.Proofs.Board.Operations

/-!
# RemoteCalls.Proofs.Registry.History

A registry that any number of threads use at once, and what can be told from the
history of its use.

The registry's operations are atomic, so a run is a sequence of them in any
order.  Only termination is longer: it takes all calls out in one step and then
finishes them one after another, waiting for room in their queues, while other
threads go on.

The main statement is `registry_history`: sequence numbers count the
registrations, the calls in flight are those that were registered and not handed
out since, and no call is handed out twice.
-/

namespace RemoteCalls.Board

/-- A registry being terminated: what the calls taken out of it are told, and those that are still
to be told. -/
structure Termination where
  status : Status
  left : List CallId

/-- A board that is shared by threads, some of which terminate its registry. -/
structure Shared (ρ : Type) where
  board : Board ρ
  terminations : List Termination := []

/-- What a thread does with a shared board. -/
inductive Use where
  | register (call : CallId)
  | remove (seq : UInt64)
  | beginClose
  /-- Shut the registry down and take all calls out of it in this order. -/
  | terminate (status : Status) (order : Registry.Order)
  /-- Finish the next call of a termination. -/
  | proceed (termination : Nat)
  /-- Finish a call that was taken out otherwise. -/
  | finish (call : CallId)
  | collect (queue : QueueId)

/-- What a registry has done for its users. -/
inductive Event where
  | registered (call : CallId) (seq : UInt64)
  | removed (call : CallId)
  | terminated (calls : List CallId)

namespace Event

/-- The registration that an event is, if it is one. -/
def registration? : Event → Option (UInt64 × CallId)
  | registered call seq => some (seq, call)
  | _ => none

/-- The calls that an event hands out. -/
def released : Event → List CallId
  | registered _ _ => []
  | removed call => [call]
  | terminated calls => calls

end Event

/-- The registrations in a history, in order: numbers and calls. -/
def registrations (events : List Event) : List (UInt64 × CallId) :=
  events.filterMap Event.registration?

/-- The calls handed out in a history, in order. -/
def handedOut (events : List Event) : List CallId := events.flatMap Event.released

@[simp] theorem registrations_append (es fs : List Event) :
    registrations (es ++ fs) = registrations es ++ registrations fs :=
  List.filterMap_append

@[simp] theorem handedOut_append (es fs : List Event) :
    handedOut (es ++ fs) = handedOut es ++ handedOut fs :=
  List.flatMap_append

theorem mem_registrations_iff {events : List Event} {seq : UInt64} {call : CallId} :
    (seq, call) ∈ registrations events ↔ Event.registered call seq ∈ events := by
  rw [registrations, List.mem_filterMap]
  constructor
  · rintro ⟨e, he, heq⟩
    cases e <;> simp only [Event.registration?, Option.some.injEq, Prod.mk.injEq, reduceCtorEq] at heq
    obtain ⟨rfl, rfl⟩ := heq
    exact he
  · exact fun he => ⟨_, he, rfl⟩

namespace Shared

variable {ρ : Type}

/-! ## Steps and runs -/

/-- A step of a thread.  Only a call that has been made can be registered. -/
def step (s : Shared ρ) : Use → Turn (Shared ρ)
  | .register id =>
      match s.board.call? id with
      | none => .blocked
      | some _ => .moved { s with board := (s.board.register id).1 }
  | .remove seq => .moved { s with board := (s.board.remove seq).2 }
  | .beginClose => .moved { s with board := s.board.beginClose.1 }
  | .terminate status order =>
      let (left, board) := s.board.takeAll order
      .moved { board, terminations := s.terminations ++ [{ status, left }] }
  | .proceed t =>
      match s.terminations[t]? with
      | some ⟨status, id :: left⟩ =>
          (s.board.finishWith status id).map fun board =>
            { board, terminations := s.terminations.set t { status, left } }
      | _ => .blocked
  | .finish id => (s.board.finish id).map fun board => { s with board }
  | .collect queue =>
      match s.board.pop? queue with
      | none => .blocked
      | some (_, board) => .moved { s with board }

/-- What the registry does in a step. -/
def observe (s : Shared ρ) : Use → List Event
  | .register id => (s.board.registry.register? id).elim [] fun r => [.registered id r.1]
  | .remove seq => (s.board.remove seq).1.elim [] fun id => [.removed id]
  | .terminate _ order => [.terminated (s.board.takeAll order).1]
  | _ => []

/-- The steps of any number of threads in any order, and what the registry did in them. -/
inductive Run (s₀ : Shared ρ) : List Event → Shared ρ → Prop where
  | start : Run s₀ [] s₀
  | step {events : List Event} {s s' : Shared ρ} (run : Run s₀ events s) (use : Use)
      (h : s.step use = .moved s') : Run s₀ (events ++ s.observe use) s'

theorem Run.append {s₀ s₁ s₂ : Shared ρ} {es fs : List Event} (first : Run s₀ es s₁)
    (second : Run s₁ fs s₂) : Run s₀ (es ++ fs) s₂ := by
  induction second with
  | start => simpa using first
  | step _ use h ih =>
      rw [← List.append_assoc]
      exact ih.step use h

/-- At most one thing happens in a step. -/
theorem length_observe_le (s : Shared ρ) (use : Use) : (s.observe use).length ≤ 1 := by
  cases use with
  | register id => cases h : s.board.registry.register? id <;> simp [observe, h]
  | remove seq => cases h : s.board.registry.find? seq <;> simp [observe, h]
  | _ => simp [observe]

/-- A history can be cut anywhere: the run has passed through a state with the first part as its
history. -/
theorem Run.of_append {s₀ s : Shared ρ} {es fs : List Event} (run : Run s₀ (es ++ fs) s) :
    ∃ s', Run s₀ es s' := by
  generalize hall : es ++ fs = events at run
  induction run generalizing fs with
  | start =>
      obtain ⟨rfl, -⟩ := List.append_eq_nil_iff.mp hall
      exact ⟨s₀, .start⟩
  | @step events s s' run use h ih =>
      rcases List.eq_nil_or_concat fs with rfl | ⟨fs', last, rfl⟩
      · rw [List.append_nil] at hall
        exact ⟨s', hall ▸ run.step use h⟩
      · have hlen := length_observe_le s use
        match hobs : s.observe use with
        | [] =>
            have hcut : es ++ (fs' ++ [last]) = events := by simpa [hobs] using hall
            exact ih hcut
        | [e] =>
            rw [hobs, List.concat_eq_append, ← List.append_assoc] at hall
            exact ih (List.append_inj' hall rfl).1
        | _ :: _ :: _ => simp [hobs] at hlen

/-! ## What a history says about the registry -/

/-- The registry and the calls of a shared board are what their history says. -/
structure Consistent (events : List Event) (s : Shared ρ) : Prop where
  numbered : s.board.registry.Numbered (registrations events).length
  counts : (registrations events).map (·.1.toNat) = List.range' 1 (registrations events).length
  inFlight : s.board.registry.pending =
    (registrations events).filter fun e => !(handedOut events).contains e.2
  seqs : ∀ e ∈ registrations events, ∃ call, s.board.call? e.2 = some call ∧ call.seq = e.1
  once : (handedOut events).Nodup
  known : ∀ id ∈ handedOut events, id ∈ (registrations events).map (·.2)
  emptied : s.board.registry.shutdown = true → s.board.registry.pending = []

theorem consistent_initial (calls : List (Call ρ)) (queues : List CompletionQueue) :
    Consistent [] { board := { calls, queues } } where
  numbered := Registry.numbered_initial
  counts := rfl
  inFlight := rfl
  seqs := by simp [registrations]
  once := List.nodup_nil
  known := by simp [handedOut]
  emptied _ := rfl

/-- A call in flight was registered and has not been handed out. -/
theorem Consistent.mem_pending_iff {events : List Event} {s : Shared ρ}
    (h : s.Consistent events) {e : UInt64 × CallId} :
    e ∈ s.board.registry.pending ↔ e ∈ registrations events ∧ e.2 ∉ handedOut events := by
  rw [h.inFlight, List.mem_filter]
  simp

/-- A step that leaves the registry and the numbers of all calls alone. -/
theorem Consistent.keep {events : List Event} {s s' : Shared ρ} (h : s.Consistent events)
    (hregistry : s'.board.registry = s.board.registry)
    (hseqs : ∀ id, (s'.board.call? id).map (·.seq) = (s.board.call? id).map (·.seq)) :
    s'.Consistent events := by
  refine ⟨hregistry ▸ h.numbered, h.counts, hregistry ▸ h.inFlight, ?_, h.once, h.known,
    hregistry ▸ h.emptied⟩
  intro e he
  obtain ⟨call, hcall, hseq⟩ := h.seqs e he
  have hkept := hseqs e.2
  rw [hcall, Option.map_some, Option.map_eq_some_iff] at hkept
  obtain ⟨call', hcall', hseq'⟩ := hkept
  exact ⟨call', hcall', hseq'.trans hseq⟩

theorem map_seq_finish {b b' : Board ρ} {id : CallId} (h : b.finish id = .moved b')
    (other : CallId) : (b'.call? other).map (·.seq) = (b.call? other).map (·.seq) := by
  obtain ⟨call, queue, q, q', -, -, -, -, -, rfl⟩ := finish_moved h
  rw [call?_delivered]
  split <;> simp [Function.comp_def]

theorem map_seq_setError (b : Board ρ) (id : CallId) (status : Status) (other : CallId) :
    ((b.setError id status).call? other).map (·.seq) = (b.call? other).map (·.seq) := by
  rw [setError, call?_modifyCall]
  split <;> simp [Function.comp_def]

theorem Consistent.register {events : List Event} {s : Shared ρ} (h : s.Consistent events)
    {id : CallId} {call : Call ρ} (hcall : s.board.call? id = some call)
    (havail : s.board.registry.isAvailable = true)
    (honce : id ∉ (registrations events).map (·.2))
    (hfew : (registrations events).length + 1 < Registry.seqLimit) :
    Consistent (events ++ [.registered id s.board.registry.nextSeq])
      { s with board := s.board.registered id } := by
  have hnew : registrations (events ++ [.registered id s.board.registry.nextSeq]) =
      registrations events ++ [(s.board.registry.nextSeq, id)] := by
    rw [registrations_append]
    rfl
  have hsame : handedOut (events ++ [.registered id s.board.registry.nextSeq]) =
      handedOut events := by
    simp [handedOut, Event.released]
  have hfree : id ∉ handedOut events := fun hmem => honce (h.known id hmem)
  refine ⟨?_, ?_, ?_, ?_, ?_, ?_, ?_⟩
  · rw [hnew, List.length_append]
    exact h.numbered.filed hfew id
  · rw [hnew, List.map_append, h.counts, List.length_append, List.map_singleton,
      List.length_singleton, ← List.range'_append_1, h.numbered.next]
    simp [Nat.add_comm]
  · rw [hnew, hsame, List.filter_append, ← h.inFlight]
    simp [Registry.filed, hfree]
  · rw [hnew]
    intro e he
    rw [List.mem_append, List.mem_singleton] at he
    rw [call?_registered]
    cases he with
    | inl hold =>
        have hne : id ≠ e.2 := fun heq => honce (heq ▸ List.mem_map_of_mem hold)
        rw [if_neg hne]
        exact h.seqs e hold
    | inr hlast => simp [hlast, hcall]
  · rw [hsame]
    exact h.once
  · rw [hnew, hsame]
    intro other hother
    rw [List.map_append]
    exact List.mem_append_left _ (h.known other hother)
  · intro hshut
    simp [Registry.isAvailable, Registry.filed] at havail hshut
    simp [hshut] at havail

theorem Consistent.remove {events : List Event} {s : Shared ρ} (h : s.Consistent events)
    (honce : ((registrations events).map (·.2)).Nodup) {seq : UInt64} {id : CallId}
    (hfind : s.board.registry.find? seq = some id) :
    Consistent (events ++ [.removed id])
      { s with board := (s.board.remove seq).2 } := by
  have hmem := h.numbered.find?_eq_some_iff.mp hfind
  obtain ⟨hreg, hfree⟩ := h.mem_pending_iff.mp hmem
  have hsame : registrations (events ++ [.removed id]) = registrations events := by
    simp [registrations, Event.registration?]
  have hnew : handedOut (events ++ [.removed id]) = handedOut events ++ [id] := by
    rw [handedOut_append]
    rfl
  refine ⟨?_, ?_, ?_, ?_, ?_, ?_, ?_⟩
  · rw [hsame]
    exact h.numbered.remove seq
  · rw [hsame]
    exact h.counts
  · -- among the calls in flight, the number tells which call it is
    rw [hsame, hnew, remove_snd, Registry.remove, h.inFlight, List.filter_filter]
    refine List.filter_congr fun e he => ?_
    have hkey : (e.2 ∉ handedOut events ∧ e.1 ≠ seq) ↔
        e.2 ∉ handedOut events ∧ e.2 ≠ id := by
      refine and_congr_right fun hfree' => ?_
      have hpending := h.mem_pending_iff.mpr ⟨he, hfree'⟩
      constructor
      · intro hne heq
        have hsame : e = (seq, id) := List.inj_on_of_nodup_map honce he hreg heq
        exact hne (congrArg Prod.fst hsame)
      · rintro hne rfl
        exact hne (h.numbered.unique hpending hmem)
    rw [Bool.eq_iff_iff]
    simp only [Bool.and_eq_true, bne_iff_ne, Bool.not_eq_true', List.contains_eq_mem,
      decide_eq_false_iff_not, List.mem_append, List.mem_singleton, not_or]
    exact and_comm.trans hkey
  · rw [hsame]
    exact h.seqs
  · rw [hnew, List.nodup_append]
    refine ⟨h.once, List.nodup_singleton _, ?_⟩
    rintro other hother _ hlast rfl
    exact hfree (List.mem_singleton.mp hlast ▸ hother)
  · rw [hsame, hnew]
    intro other hother
    rw [List.mem_append, List.mem_singleton] at hother
    cases hother with
    | inl hold => exact h.known other hold
    | inr heq => exact heq ▸ List.mem_map_of_mem hreg
  · intro hshut
    have hempty := h.emptied hshut
    simp [hempty] at hmem

theorem Consistent.takeAll {events : List Event} {s : Shared ρ} (h : s.Consistent events)
    (honce : ((registrations events).map (·.2)).Nodup) (order : Registry.Order)
    (terminations : List Termination) :
    Consistent (events ++ [.terminated (s.board.takeAll order).1])
      { board := (s.board.takeAll order).2, terminations } := by
  have hsame : registrations (events ++ [.terminated (s.board.takeAll order).1]) =
      registrations events := by
    simp [registrations, Event.registration?]
  have hnew : handedOut (events ++ [.terminated (s.board.takeAll order).1]) =
      handedOut events ++ (s.board.takeAll order).1 := by
    simp [handedOut, Event.released]
  refine ⟨?_, ?_, ?_, ?_, ?_, ?_, ?_⟩
  · rw [hsame]
    exact h.numbered.emptied
  · rw [hsame]
    exact h.counts
  · rw [hsame, hnew]
    refine (List.filter_eq_nil_iff.mpr fun e he => ?_).symm
    by_cases hout : e.2 ∈ handedOut events
    · simp [hout]
    · have hpending := h.mem_pending_iff.mpr ⟨he, hout⟩
      simp only [Bool.not_eq_true, Bool.not_eq_false', List.contains_iff_mem, List.mem_append,
        mem_takeAll]
      exact .inr (List.mem_map_of_mem hpending)
  · rw [hsame]
    exact h.seqs
  · have hnodup : (s.board.registry.pending.map (·.2)).Nodup := by
      rw [h.inFlight]
      exact honce.sublist (List.filter_sublist.map _)
    rw [hnew, List.nodup_append]
    refine ⟨h.once, (s.board.takeAll_perm order).nodup_iff.mpr hnodup, ?_⟩
    rintro id hout _ hmem rfl
    rw [mem_takeAll, List.mem_map] at hmem
    obtain ⟨e, he, rfl⟩ := hmem
    exact (h.mem_pending_iff.mp he).2 hout
  · rw [hsame, hnew]
    intro id hid
    rw [List.mem_append, mem_takeAll, List.mem_map] at hid
    rcases hid with hold | ⟨e, he, rfl⟩
    · exact h.known id hold
    · exact List.mem_map_of_mem (h.mem_pending_iff.mp he).1
  · intro _
    rfl

/-! ## What a step does to the registry -/

/-- The effect of a step on the registry and on the numbers of calls. -/
inductive Effect (s : Shared ρ) : List Event → Shared ρ → Prop where
  | registered {id : CallId} {call : Call ρ} (hcall : s.board.call? id = some call)
      (havail : s.board.registry.isAvailable = true) :
      Effect s [.registered id s.board.registry.nextSeq] { s with board := s.board.registered id }
  | removed {seq : UInt64} {id : CallId} (hfind : s.board.registry.find? seq = some id) :
      Effect s [.removed id] { s with board := (s.board.remove seq).2 }
  | closing :
      Effect s [] { s with
        board := { s.board with registry := { s.board.registry with closing := true } } }
  | terminated (order : Registry.Order) (terminations : List Termination) :
      Effect s [.terminated (s.board.takeAll order).1]
        { board := (s.board.takeAll order).2, terminations }
  | none {s' : Shared ρ} (hregistry : s'.board.registry = s.board.registry)
      (hseqs : ∀ id, (s'.board.call? id).map (·.seq) = (s.board.call? id).map (·.seq)) :
      Effect s [] s'

/-- Every step has one of the effects. -/
theorem effect_of_step {s s' : Shared ρ} {n : Nat} (hn : s.board.registry.Numbered n) {use : Use}
    (h : s.step use = .moved s') : Effect s (s.observe use) s' := by
  cases use with
  | register id =>
      simp only [Shared.step] at h
      cases hcall : s.board.call? id with
      | none => simp [hcall] at h
      | some call =>
          simp only [hcall, Turn.moved.injEq] at h
          cases havail : s.board.registry.isAvailable with
          | false =>
              rw [register_of_unavailable havail] at h
              subst h
              simpa [observe, Registry.register?, havail] using Effect.none rfl fun _ => rfl
          | true =>
              rw [register_of_available hn havail] at h
              subst h
              simpa [observe, hn.register?_eq havail] using Effect.registered hcall havail
  | remove seq =>
      obtain rfl := Turn.moved.inj h
      cases hfind : s.board.registry.find? seq with
      | none =>
          simpa [observe, hfind, Registry.remove_of_find?_eq_none hfind] using
            Effect.none (s := s) rfl fun _ => rfl
      | some id => simpa [observe, hfind] using Effect.removed hfind
  | beginClose =>
      obtain rfl := Turn.moved.inj h
      rw [beginClose_eq]
      split
      · exact .none rfl fun _ => rfl
      · exact .closing
  | terminate status order =>
      obtain rfl := Turn.moved.inj h
      exact .terminated order _
  | proceed t =>
      simp only [Shared.step] at h
      split at h
      case h_1 status id left _ =>
          cases hfinish : s.board.finishWith status id with
          | moved b =>
              simp only [hfinish, Turn.map, Turn.moved.injEq] at h
              subst h
              refine .none ((registry_finish hfinish).trans (registry_setError ..)) ?_
              exact fun other => (map_seq_finish hfinish other).trans (map_seq_setError ..)
          | _ => simp [hfinish, Turn.map] at h
      case h_2 => contradiction
  | finish id =>
      simp only [Shared.step] at h
      cases hfinish : s.board.finish id with
      | moved b =>
          simp only [hfinish, Turn.map, Turn.moved.injEq] at h
          subst h
          exact .none (registry_finish hfinish) (map_seq_finish hfinish)
      | _ => simp [hfinish, Turn.map] at h
  | collect queue =>
      simp only [Shared.step] at h
      cases hpop : s.board.pop? queue with
      | none => simp [hpop] at h
      | some popped =>
          simp only [hpop, Turn.moved.injEq] at h
          subst h
          obtain ⟨q, q', -, -, heq⟩ := pop?_eq_some hpop
          exact .none (by rw [heq]) fun _ => by rw [heq]; rfl

/-- The flags of a registry stay raised. -/
theorem Effect.flags {s s' : Shared ρ} {events : List Event} (h : Effect s events s') :
    (s.board.registry.closing = true → s'.board.registry.closing = true) ∧
      (s.board.registry.shutdown = true → s'.board.registry.shutdown = true) := by
  cases h with
  | none hregistry => simp [hregistry]
  | _ => simp [Registry.filed, Registry.remove, Registry.emptied]

/-! ## Runs -/

/-- An effect leaves the board as the history says, if no call is registered twice and the numbers
do not run out. -/
theorem Consistent.effect {events new : List Event} {s s' : Shared ρ} (h : s.Consistent events)
    (heffect : Effect s new s')
    (honce : ((registrations (events ++ new)).map (·.2)).Nodup)
    (hfew : (registrations (events ++ new)).length < Registry.seqLimit) :
    s'.Consistent (events ++ new) := by
  rw [registrations_append, List.map_append] at honce
  rw [registrations_append, List.length_append] at hfew
  obtain ⟨hold, -, hdisjoint⟩ := List.nodup_append.mp honce
  cases heffect with
  | @registered id call hcall havail =>
      exact h.register hcall havail (fun hmem => hdisjoint id hmem id List.mem_cons_self rfl) hfew
  | removed hfind => exact h.remove hold hfind
  | closing =>
      rw [List.append_nil]
      exact ⟨⟨h.numbered.next, h.numbered.rising, h.numbered.handedOut⟩, h.counts,
        h.inFlight, h.seqs, h.once, h.known, h.emptied⟩
  | terminated order terminations => exact h.takeAll hold order terminations
  | none hregistry hseqs =>
      rw [List.append_nil]
      exact h.keep hregistry hseqs

variable {calls : List (Call ρ)} {queues : List CompletionQueue}

/-- Every run leaves the board as its history says. -/
theorem Run.consistent {s : Shared ρ} {events : List Event}
    (run : Run { board := { calls, queues } } events s)
    (honce : ((registrations events).map (·.2)).Nodup)
    (hfew : (registrations events).length < Registry.seqLimit) : s.Consistent events := by
  induction run with
  | start => exact consistent_initial calls queues
  | @step events s s' _ use hstep ih =>
      have hs : s.Consistent events := by
        refine ih (honce.sublist ?_) (Nat.lt_of_le_of_lt ?_ hfew)
        · exact ((List.sublist_append_left ..).filterMap _).map _
        · rw [registrations_append, List.length_append]
          exact Nat.le_add_right ..
      exact hs.effect (effect_of_step hs.numbered hstep) honce hfew

/-- No call has been handed out that had not been registered before. -/
theorem Run.registered_of_handedOut {s : Shared ρ} {before after : List Event}
    (run : Run { board := { calls, queues } } (before ++ after) s)
    (honce : ((registrations (before ++ after)).map (·.2)).Nodup)
    (hfew : (registrations (before ++ after)).length < Registry.seqLimit) {id : CallId}
    (hid : id ∈ handedOut before) : id ∈ (registrations before).map (·.2) := by
  obtain ⟨s', run'⟩ := run.of_append
  rw [registrations_append, List.map_append] at honce
  rw [registrations_append, List.length_append] at hfew
  have hs' := run'.consistent (List.nodup_append.mp honce).1
    (Nat.lt_of_le_of_lt (Nat.le_add_right ..) hfew)
  exact hs'.known id hid

/-- The calls in flight are those that were registered and not handed out since. -/
theorem Run.find?_eq_some_iff {s : Shared ρ} {events : List Event}
    (run : Run { board := { calls, queues } } events s)
    (honce : ((registrations events).map (·.2)).Nodup)
    (hfew : (registrations events).length < Registry.seqLimit) {seq : UInt64} {id : CallId} :
    s.board.registry.find? seq = some id ↔
      ∃ before after, events = before ++ .registered id seq :: after ∧ id ∉ handedOut after := by
  have hs := run.consistent honce hfew
  rw [hs.numbered.find?_eq_some_iff, hs.mem_pending_iff, mem_registrations_iff]
  constructor
  · rintro ⟨hreg, hfree⟩
    obtain ⟨before, after, rfl⟩ := List.append_of_mem hreg
    refine ⟨before, after, rfl, fun hafter => hfree ?_⟩
    rw [handedOut_append]
    exact List.mem_append_right _ (List.mem_append_right _ hafter)
  · rintro ⟨before, after, rfl, hafter⟩
    refine ⟨by simp, fun hout => ?_⟩
    rw [handedOut_append, List.mem_append] at hout
    rcases hout with hbefore | hlater
    · -- it would have been registered before it was registered
      have hknown := run.registered_of_handedOut honce hfew hbefore
      rw [registrations_append, List.map_append] at honce
      exact (List.nodup_append.mp honce).2.2 id hknown id List.mem_cons_self rfl
    · exact hafter hlater

/-- Flags that are raised stay raised in every run. -/
theorem Run.flags {s₁ s₂ : Shared ρ} {earlier later : List Event}
    (run₁ : Run { board := { calls, queues } } earlier s₁) (run₂ : Run s₁ later s₂)
    (honce : ((registrations (earlier ++ later)).map (·.2)).Nodup)
    (hfew : (registrations (earlier ++ later)).length < Registry.seqLimit) :
    (s₁.board.registry.closing = true → s₂.board.registry.closing = true) ∧
      (s₁.board.registry.shutdown = true → s₂.board.registry.shutdown = true) := by
  induction run₂ with
  | start => exact ⟨id, id⟩
  | @step later s s' run use hstep ih =>
      rw [← List.append_assoc, registrations_append, List.map_append] at honce
      rw [← List.append_assoc, registrations_append, List.length_append] at hfew
      have honce' := (List.nodup_append.mp honce).1
      have hfew' := Nat.lt_of_le_of_lt (Nat.le_add_right ..) hfew
      have hs := (run₁.append run).consistent honce' hfew'
      have hflags := (effect_of_step hs.numbered hstep).flags
      have hih := ih honce' hfew'
      exact ⟨hflags.1 ∘ hih.1, hflags.2 ∘ hih.2⟩

/-- **The registry and its history.**  However threads use a registry, as long as no call is
registered twice and the numbers do not run out: the numbers handed out are 1, 2, 3 and so on in
the order of registration; a call is in flight under a number exactly if it was registered under it
and has not been handed out since, and then it carries that number, which is one of those handed
out; as many calls are in flight; a call is handed out at most once; a raised flag stays raised;
after a shutdown nothing is in flight ever again, while closing leaves every call where it is found;
and a registration succeeds exactly if neither flag is raised, and otherwise changes nothing. -/
theorem registry_history {s₁ s₂ : Shared ρ} {earlier later : List Event}
    (run₁ : Run { board := { calls, queues } } earlier s₁) (run₂ : Run s₁ later s₂)
    (honce : ((registrations (earlier ++ later)).map (·.2)).Nodup)
    (hfew : (registrations (earlier ++ later)).length < Registry.seqLimit) :
    let events := earlier ++ later
    let r := s₂.board.registry
    (registrations events).map (·.1.toNat) = List.range' 1 (registrations events).length ∧
    (∀ seq id, r.find? seq = some id ↔
      ∃ before after, events = before ++ .registered id seq :: after ∧ id ∉ handedOut after) ∧
    (∀ seq id, r.find? seq = some id →
      1 ≤ seq ∧ seq < r.nextSeq ∧ ∃ call, s₂.board.call? id = some call ∧ call.seq = seq) ∧
    r.pending.length =
      ((registrations events).filter fun e => !(handedOut events).contains e.2).length ∧
    (handedOut events).Nodup ∧
    (∀ id ∈ handedOut events, id ∈ (registrations events).map (·.2)) ∧
    (s₁.board.registry.closing = true → r.closing = true) ∧
    (s₁.board.registry.shutdown = true → r.shutdown = true ∧ r.pending = []) ∧
    (∀ seq, (s₂.board.beginClose.1.remove seq).1 = r.find? seq) ∧
    (∀ id, (s₂.board.register id).2.isOk = true ↔ r.closing = false ∧ r.shutdown = false) ∧
    (∀ id, (s₂.board.register id).2.isOk = false → (s₂.board.register id).1 = s₂.board) := by
  intro events r
  have run := run₁.append run₂
  have hs := run.consistent honce hfew
  have hflags := run₁.flags run₂ honce hfew
  refine ⟨hs.counts, fun seq id => run.find?_eq_some_iff honce hfew, ?_, ?_, hs.once, hs.known,
    hflags.1, fun hshut => ⟨hflags.2 hshut, hs.emptied (hflags.2 hshut)⟩, ?_,
    fun id => isOk_register_iff, ?_⟩
  · intro seq id hfind
    have hmem := hs.numbered.find?_eq_some_iff.mp hfind
    have hnumber := hs.numbered.handedOut _ hmem
    refine ⟨?_, hnumber.2, hs.seqs _ (hs.mem_pending_iff.mp hmem).1⟩
    exact UInt64.le_iff_toNat_le.mpr (UInt64.lt_iff_toNat_lt.mp hnumber.1)
  · rw [hs.inFlight]
  · intro seq
    rw [beginClose_eq]
    split <;> rfl
  · intro id hrefused
    have havail : s₂.board.registry.isAvailable = false := by
      have hnot := mt isOk_register_iff.mpr (by rw [hrefused]; simp)
      simpa [Registry.isAvailable, ← Bool.not_eq_true, imp_not_comm] using hnot
    rw [register_of_unavailable havail]

/-- Two calls are registered and one of them is handed out; a termination takes the other, and a
third call comes too late. -/
theorem registry_history_three_calls :
    ∃ s : Shared Unit,
      Run { board := { calls := [{ reply := () }, { reply := () }, { reply := () }] } }
        [.registered 0 1, .registered 1 2, .removed 0, .terminated [1]] s ∧
      s.board.registry.pending = [] ∧ [0, 1].Nodup ∧ (s.board.register 2).1 = s.board := by
  have begun : Run { board := { calls := [{ reply := () }, { reply := () }, { reply := () }] } }
      [] ({ board := { calls := [{ reply := () }, { reply := () }, { reply := () }] } } :
        Shared Unit) := .start
  have run := ((((begun.step (.register 0) rfl).step (.register 1) rfl).step (.remove 1)
    rfl).step (.terminate {} .newestFirst) rfl).step (.register 2) rfl
  obtain ⟨-, -, -, -, hnodup, -, -, hshut, -, -, hrefused⟩ :=
    registry_history run .start (by decide) (by decide)
  exact ⟨_, run, (hshut rfl).2, hnodup, hrefused 2 rfl⟩

end Shared

end RemoteCalls.Board
