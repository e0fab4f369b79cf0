import RemoteCalls.Call.Monitor

/-!
# RemoteCalls.Proofs.Monitor.Runs

A completion queue that any number of threads use at once.

A thread comes to deliver a call or to collect one, and the first that others can see
of it is that it tests the queue.  From then on it goes step by step, and the steps of
all threads come in any order (`Run`).  A thread that comes again counts as another.

`Change` says what a step can be: where it takes its thread from and to, and what it
does to the queue and to a sleeper.  `change_of_step` is the only place where the steps
themselves are looked into.
-/

namespace RemoteCalls

/-- What a thread comes to a queue for. -/
inductive Errand where
  | deliver (call : CallId)
  | collect (patient : Bool)
  deriving DecidableEq, Repr

/-- A thread that has come and is about to test the queue. -/
def Errand.start : Errand → Worker
  | deliver call => .delivering call
  | collect patient => .collecting patient

/-- What a thread waits for: room for a call, or a call. -/
inductive Want where
  | room
  | call
  deriving DecidableEq, Repr

namespace Worker

/-- Whether a thread sleeps until it gets what is wanted. -/
def awaits : Want → Worker → Bool
  | .room => awaitsRoom
  | .call => awaitsCall

/-- Whether a thread is about to test whether there is what is wanted. -/
def tests : Want → Worker → Bool
  | .room, delivering _ => true
  | .call, collecting _ => true
  | _, _ => false

/-- Whether a thread has made available what is wanted, and still has to wake a sleeper. -/
def signals : Want → Worker → Bool
  | .room, releasing _ => true
  | .call, announcing => true
  | _, _ => false

/-- Whether a thread collects a call if there is one: it tests, or its patience may end. -/
def takes : Worker → Bool
  | collecting _ | awaitingCall false => true
  | _ => false

/-- Whether a thread gives up if there is no call. -/
def givesUp : Worker → Bool
  | collecting false | awaitingCall false => true
  | _ => false

/-- A thread that has sent its signal; others are as they were. -/
def signalled : Worker → Worker
  | announcing => delivered
  | releasing call => collected (some call)
  | w => w

theorem awaits_cases {want : Want} {w : Worker} (h : w.awaits want = true) :
    (∃ call, want = .room ∧ w = awaitingRoom call) ∨
      ∃ patient, want = .call ∧ w = awaitingCall patient := by
  cases want <;> cases w <;> simp_all [awaits, awaitsRoom, awaitsCall]

theorem signals_cases {want : Want} {w : Worker} (h : w.signals want = true) :
    (want = .call ∧ w = announcing) ∨ ∃ call, want = .room ∧ w = releasing call := by
  cases want <;> cases w <;> simp_all [signals]

theorem takes_cases {w : Worker} (h : w.takes = true) :
    (∃ patient, w = collecting patient) ∨ ∃ patient, w = awaitingCall patient := by
  cases w <;> simp_all [takes]

theorem givesUp_cases {w : Worker} (h : w.givesUp = true) :
    w = collecting false ∨ w = awaitingCall false := by
  unfold givesUp at h
  split at h
  · exact .inl rfl
  · exact .inr rfl
  · contradiction

end Worker

namespace Monitor

/-! ## What a step can be -/

/-- A step of `thread` from one of its states to another, and the monitor after it. -/
inductive Change (m : Monitor) (thread : Nat) : Worker → Worker → Monitor → Prop where
  | put {call : CallId} (hroom : m.queue.hasRoom = true) :
      Change m thread (.delivering call) .announcing
        ({ m with queue := { m.queue with items := m.queue.items ++ [call] } }.set thread
          .announcing)
  | full {call : CallId} (hfull : m.queue.hasRoom = false) :
      Change m thread (.delivering call) (.awaitingRoom call) (m.set thread (.awaitingRoom call))
  | took {w : Worker} {call : CallId} {items : List CallId} (hw : w.takes = true)
      (hitems : m.queue.items = call :: items) :
      Change m thread w (.releasing call)
        ({ m with queue := { m.queue with items } }.set thread (.releasing call))
  | empty {patient : Bool} (hitems : m.queue.items = []) :
      Change m thread (.collecting patient) (.awaitingCall patient)
        (m.set thread (.awaitingCall patient))
  | gaveUp {w : Worker} (hw : w.givesUp = true) (hitems : m.queue.items = []) :
      Change m thread w (.collected none) (m.set thread (.collected none))
  | roused {w v : Worker} {want : Want} {sleeper : Nat} (hw : w.signals want = true)
      (hv : m.workers[sleeper]? = some v) (hawaits : v.awaits want = true) :
      Change m thread w w.signalled ((m.set sleeper v.wake).set thread w.signalled)
  | unheard {w : Worker} {want : Want} (hw : w.signals want = true)
      (hnone : m.workers.any (Worker.awaits want) = false) :
      Change m thread w w.signalled (m.set thread w.signalled)
  | stirred {w : Worker} {want : Want} (hw : w.awaits want = true) :
      Change m thread w w.wake (m.set thread w.wake)

/-- A thread that collects does so if there is a call. -/
theorem change_of_collect {m m' : Monitor} {thread : Nat} {w idle : Worker} (hw : w.takes = true)
    (hidle : m.queue.items = [] → Change m thread w idle (m.set thread idle))
    (h : (match m.queue.pop? with
      | some (call, queue) => some ({ m with queue }.set thread (.releasing call))
      | none => some (m.set thread idle)) = some m') :
    ∃ w', Change m thread w w' m' := by
  cases hitems : m.queue.items with
  | nil =>
      simp only [CompletionQueue.pop?, hitems, Option.some.injEq] at h
      exact ⟨idle, h ▸ hidle hitems⟩
  | cons call items =>
      simp only [CompletionQueue.pop?, hitems, Option.some.injEq] at h
      exact ⟨.releasing call, h ▸ .took hw hitems⟩

/-- A thread that signals wakes a sleeper, if there is any. -/
theorem change_of_signal {m m' : Monitor} {thread : Nat} {w : Worker} {want : Want}
    (hw : w.signals want = true) {sleeper : Option Nat}
    (h : (m.wakeOne? (Worker.awaits want) sleeper).map (·.set thread w.signalled) = some m') :
    Change m thread w w.signalled m' := by
  obtain ⟨roused, hwake, rfl⟩ := Option.map_eq_some_iff.mp h
  cases sleeper with
  | none =>
      simp only [wakeOne?, Option.ite_none_left_eq_some, Bool.not_eq_true] at hwake
      obtain ⟨hnone, hsame⟩ := hwake
      obtain rfl := Option.some.inj hsame
      exact .unheard hw hnone
  | some t =>
      obtain ⟨v, hv, hwoken⟩ := Option.bind_eq_some_iff.mp hwake
      obtain ⟨hawaits, hset⟩ := Option.ite_none_right_eq_some.mp hwoken
      obtain rfl := Option.some.inj hset
      exact .roused hw hv hawaits

/-- Every step is one of the changes. -/
theorem change_of_step {m m' : Monitor} {thread : Nat} {s : QueueStep}
    (h : m.step? thread s = some m') :
    ∃ w w', m.workers[thread]? = some w ∧ Change m thread w w' m' := by
  obtain ⟨w, hw, hstep⟩ := Option.bind_eq_some_iff.mp h
  suffices hchange : ∃ w', Change m thread w w' m' by
    obtain ⟨w', hchange⟩ := hchange
    exact ⟨w, w', hw, hchange⟩
  split at hstep
  case h_1 call =>
    cases hroom : m.queue.hasRoom with
    | true =>
        simp only [CompletionQueue.push?, hroom, if_true] at hstep
        obtain rfl := Option.some.inj hstep
        exact ⟨_, .put hroom⟩
    | false =>
        simp only [CompletionQueue.push?, hroom, Bool.false_eq_true, if_false] at hstep
        obtain rfl := Option.some.inj hstep
        exact ⟨_, .full hroom⟩
  case h_2 patient => exact change_of_collect rfl .empty hstep
  case h_3 sleeper =>
    have hsignals : Worker.announcing.signals .call = true := rfl
    exact ⟨_, change_of_signal hsignals hstep⟩
  case h_4 call sleeper =>
    have hsignals : (Worker.releasing call).signals .room = true := rfl
    exact ⟨_, change_of_signal hsignals hstep⟩
  case h_5 call =>
    obtain rfl := Option.some.inj hstep
    have hawaits : (Worker.awaitingRoom call).awaits .room = true := rfl
    exact ⟨_, .stirred hawaits⟩
  case h_6 patient =>
    obtain rfl := Option.some.inj hstep
    have hawaits : (Worker.awaitingCall patient).awaits .call = true := rfl
    exact ⟨_, .stirred hawaits⟩
  case h_7 => exact change_of_collect rfl (.gaveUp rfl) hstep
  case h_8 => exact change_of_collect rfl (.gaveUp rfl) hstep
  case h_9 => contradiction

section Change

variable {m m' : Monitor} {thread : Nat} {w w' : Worker}

/-- A thread is after its step where the step has taken it. -/
theorem Change.worker_eq (hw : m.workers[thread]? = some w) (h : Change m thread w w' m') :
    m'.workers[thread]? = some w' := by
  obtain ⟨hlt, -⟩ := List.getElem?_eq_some_iff.mp hw
  cases h <;> simp [set, hlt]

/-- Every other thread stays where it is, or sleeps and is woken. -/
theorem Change.other (h : Change m thread w w' m') {other : Nat} (hne : other ≠ thread) :
    m'.workers[other]? = m.workers[other]? ∨
      ∃ v want, m.workers[other]? = some v ∧ v.awaits want = true ∧
        m'.workers[other]? = some v.wake := by
  cases h with
  | @roused _ v want sleeper _ hv hawaits =>
      by_cases heq : other = sleeper
      · subst heq
        obtain ⟨hlt, -⟩ := List.getElem?_eq_some_iff.mp hv
        refine .inr ⟨v, want, hv, hawaits, ?_⟩
        exact (List.getElem?_set_ne hne.symm).trans (List.getElem?_set_self hlt)
      · exact .inl ((List.getElem?_set_ne hne.symm).trans (List.getElem?_set_ne (Ne.symm heq)))
  | _ => exact .inl (List.getElem?_set_ne hne.symm)

theorem Change.length_workers (h : Change m thread w w' m') :
    m'.workers.length = m.workers.length := by
  cases h <;> simp [set]

theorem Change.capacity_eq (h : Change m thread w w' m') :
    m'.queue.capacity = m.queue.capacity := by
  cases h <;> rfl

end Change

/-! ## Runs -/

/-- What a thread does at a queue. -/
inductive Deed where
  | came (errand : Errand)
  | put (call : CallId)
  | took (call : CallId)
  | gaveUp
  deriving DecidableEq, Repr

end Monitor

/-- What a thread has done that has gone from one state to another. -/
def Worker.deed? : Worker → Worker → Option Monitor.Deed
  | delivering call, announcing => some (.put call)
  | collecting _, releasing call | awaitingCall _, releasing call => some (.took call)
  | collecting _, collected none | awaitingCall _, collected none => some .gaveUp
  | _, _ => none

namespace Monitor

/-- What threads have done, in order. -/
abbrev History := List (Nat × Deed)

/-- What a thread has done that has taken the monitor from `m` to `m'`. -/
def deeds (m m' : Monitor) (thread : Nat) : History :=
  ((m.workers[thread]?).bind fun w => (m'.workers[thread]?).bind w.deed?).toList.map (thread, ·)

/-- The monitor with a thread more, which has come and is about to test. -/
def enter (m : Monitor) (errand : Errand) : Monitor :=
  { m with workers := m.workers ++ [errand.start] }

/-- The steps of any number of threads in any order, from an empty queue on, and what they have
done.  A thread tests the queue when it comes. -/
inductive Run (capacity : Nat) : History → Monitor → Prop where
  | opened : Run capacity [] { queue := { capacity } }
  | come {history : History} {m m' : Monitor} (run : Run capacity history m) (errand : Errand)
      (h : (m.enter errand).step? m.workers.length .test = some m') :
      Run capacity
        (history ++ [(m.workers.length, .came errand)] ++
          (m.enter errand).deeds m' m.workers.length) m'
  | step {history : History} {m m' : Monitor} (run : Run capacity history m) (thread : Nat)
      (s : QueueStep) (h : m.step? thread s = some m') :
      Run capacity (history ++ m.deeds m' thread) m'

theorem deeds_of_change {m m' : Monitor} {thread : Nat} {w w' : Worker}
    (hw : m.workers[thread]? = some w) (h : Change m thread w w' m') :
    m.deeds m' thread = (w.deed? w').toList.map (thread, ·) := by
  rw [deeds, hw, h.worker_eq hw]
  rfl

/-- What holds of an empty queue, and is kept when threads come and in every change, holds in every
run. -/
theorem Run.induct {P : History → Monitor → Prop} {capacity : Nat} {history : History} {m : Monitor}
    (run : Run capacity history m) (opened : P [] { queue := { capacity } })
    (enter : ∀ {history m} (errand), P history m →
      P (history ++ [(m.workers.length, .came errand)]) (m.enter errand))
    (change : ∀ {history m m' thread w w'}, P history m → m.workers[thread]? = some w →
      Change m thread w w' m' → P (history ++ (w.deed? w').toList.map (thread, ·)) m') :
    P history m := by
  induction run with
  | opened => exact opened
  | come run errand h ih =>
      -- the first test of a thread is a change like any other, once the thread is there
      obtain ⟨w, w', hw, hchange⟩ := change_of_step h
      rw [deeds_of_change hw hchange]
      exact change (enter errand ih) hw hchange
  | step run thread s h ih =>
      obtain ⟨w, w', hw, hchange⟩ := change_of_step h
      rw [deeds_of_change hw hchange]
      exact change ih hw hchange

theorem Run.capacity_eq {capacity : Nat} {history : History} {m : Monitor}
    (run : Run capacity history m) : m.queue.capacity = capacity :=
  run.induct rfl (fun _ h => h) fun h _ hchange => hchange.capacity_eq.trans h

end Monitor

end RemoteCalls
