import RemoteCalls.Proofs.Monitor.Runs

/-!
# RemoteCalls.Proofs.Monitor.Fifo

However threads use a completion queue, it loses no call and changes no order.

`Ledger` is what holds in every run: the calls that have been taken, and behind them
those in the queue, are the calls that have been put, one after another; there are
never more in the queue than fit; and each thread has done just what its state says
(`Past`), so that it has delivered its call once or not yet, and has collected one
call, none yet, or has given up.

Main statement: `fifo_without_loss`.
-/

namespace RemoteCalls.Monitor

/-! ## What a history says -/

/-- The call that a deed puts into the queue. -/
def Deed.put? : Deed → Option CallId
  | put call => some call
  | _ => none

/-- The call that a deed takes out of the queue. -/
def Deed.took? : Deed → Option CallId
  | took call => some call
  | _ => none

/-- The calls that have been put into the queue, in order. -/
def putCalls (history : History) : List CallId := history.filterMap (·.2.put?)

/-- The calls that have been taken out of the queue, in order. -/
def takenCalls (history : History) : List CallId := history.filterMap (·.2.took?)

/-- What a thread has done, in order. -/
def deedsOf (history : History) (thread : Nat) : List Deed :=
  (history.filter (·.1 == thread)).map (·.2)

section Append

variable (history : History) {thread other : Nat} (deeds : List Deed)

theorem putCalls_append :
    putCalls (history ++ deeds.map (thread, ·)) =
      putCalls history ++ deeds.filterMap Deed.put? := by
  rw [putCalls, List.filterMap_append, List.filterMap_map]
  rfl

theorem takenCalls_append :
    takenCalls (history ++ deeds.map (thread, ·)) =
      takenCalls history ++ deeds.filterMap Deed.took? := by
  rw [takenCalls, List.filterMap_append, List.filterMap_map]
  rfl

theorem deedsOf_append_self :
    deedsOf (history ++ deeds.map (thread, ·)) thread = deedsOf history thread ++ deeds := by
  simp [deedsOf, List.filter_map, Function.comp_def]

theorem deedsOf_append_of_ne (hne : other ≠ thread) :
    deedsOf (history ++ deeds.map (thread, ·)) other = deedsOf history other := by
  simp [deedsOf, List.filter_map, Function.comp_def, hne.symm]

end Append

/-- What a thread has done that is in a certain state. -/
inductive Past : Worker → List Deed → Prop where
  | delivering (call : CallId) : Past (.delivering call) [.came (.deliver call)]
  | awaitingRoom (call : CallId) : Past (.awaitingRoom call) [.came (.deliver call)]
  | announcing (call : CallId) : Past .announcing [.came (.deliver call), .put call]
  | delivered (call : CallId) : Past .delivered [.came (.deliver call), .put call]
  | collecting (patient : Bool) : Past (.collecting patient) [.came (.collect patient)]
  | awaitingCall (patient : Bool) : Past (.awaitingCall patient) [.came (.collect patient)]
  | releasing (patient : Bool) (call : CallId) :
      Past (.releasing call) [.came (.collect patient), .took call]
  | collected (patient : Bool) (call : CallId) :
      Past (.collected (some call)) [.came (.collect patient), .took call]
  | gaveUp : Past (.collected none) [.came (.collect false), .gaveUp]

theorem past_start (errand : Errand) : Past errand.start [.came errand] := by
  cases errand with
  | deliver call => exact .delivering call
  | collect patient => exact .collecting patient

theorem Past.wake {w : Worker} {want : Want} {deeds : List Deed} (h : Past w deeds)
    (hw : w.awaits want = true) : Past w.wake deeds := by
  obtain ⟨call, rfl, rfl⟩ | ⟨patient, rfl, rfl⟩ := Worker.awaits_cases hw
  · cases h with
    | awaitingRoom => exact .delivering call
  · cases h with
    | awaitingCall => exact .collecting patient

theorem Past.signalled {w : Worker} {want : Want} {deeds : List Deed} (h : Past w deeds)
    (hw : w.signals want = true) : Past w.signalled deeds := by
  obtain ⟨rfl, rfl⟩ | ⟨call, rfl, rfl⟩ := Worker.signals_cases hw
  · cases h with
    | announcing call => exact .delivered call
  · cases h with
    | releasing patient => exact .collected patient call

section Change

variable {m m' : Monitor} {thread : Nat} {w w' : Worker} {want : Want}

theorem deed?_signalled (hw : w.signals want = true) : w.deed? w.signalled = none := by
  obtain ⟨rfl, rfl⟩ | ⟨call, rfl, rfl⟩ := Worker.signals_cases hw
  · rfl
  · rfl

theorem deed?_wake (hw : w.awaits want = true) : w.deed? w.wake = none := by
  obtain ⟨call, rfl, rfl⟩ | ⟨patient, rfl, rfl⟩ := Worker.awaits_cases hw
  · rfl
  · rfl

theorem signalled_ne (hw : w.signals want = true) : w.signalled ≠ .collected none := by
  obtain ⟨rfl, rfl⟩ | ⟨call, rfl, rfl⟩ := Worker.signals_cases hw
  · exact nofun
  · exact nofun

theorem wake_ne (hw : w.awaits want = true) : w.wake ≠ .collected none := by
  obtain ⟨call, rfl, rfl⟩ | ⟨patient, rfl, rfl⟩ := Worker.awaits_cases hw
  · exact nofun
  · exact nofun

/-- What a thread has done stays in step with its state. -/
theorem Past.change {deeds : List Deed} (h : Past w deeds) (hchange : Change m thread w w' m') :
    Past w' (deeds ++ (w.deed? w').toList) := by
  cases hchange with
  | @put call hroom =>
      cases h with
      | delivering => exact .announcing call
  | @full call hfull =>
      cases h with
      | delivering => exact .awaitingRoom call
  | @took _ call items hw hitems =>
      obtain ⟨patient, rfl⟩ | ⟨patient, rfl⟩ := Worker.takes_cases hw
      · cases h with
        | collecting => exact .releasing patient call
      · cases h with
        | awaitingCall => exact .releasing patient call
  | @empty patient hitems =>
      cases h with
      | collecting => exact .awaitingCall patient
  | gaveUp hw hitems =>
      obtain rfl | rfl := Worker.givesUp_cases hw
      · cases h with
        | collecting => exact .gaveUp
      · cases h with
        | awaitingCall => exact .gaveUp
  | roused hw hv hawaits => simpa [deed?_signalled hw] using h.signalled hw
  | unheard hw hnone => simpa [deed?_signalled hw] using h.signalled hw
  | stirred hw => simpa [deed?_wake hw] using h.wake hw

/-- What a step does to the queue is what its thread has done. -/
theorem Change.queue_cases (h : Change m thread w w' m') :
    (∃ call, w.deed? w' = some (.put call) ∧ m.queue.hasRoom = true ∧
      m'.queue = { m.queue with items := m.queue.items ++ [call] }) ∨
    (∃ call items, w.deed? w' = some (.took call) ∧ m.queue.items = call :: items ∧
      m'.queue = { m.queue with items }) ∨
    ((w.deed? w' = none ∨ w.deed? w' = some .gaveUp) ∧ m'.queue = m.queue) := by
  cases h with
  | @put call hroom => exact .inl ⟨call, rfl, hroom, rfl⟩
  | full hfull => exact .inr (.inr ⟨.inl rfl, rfl⟩)
  | @took _ call items hw hitems =>
      refine .inr (.inl ⟨call, items, ?_, hitems, rfl⟩)
      obtain ⟨patient, rfl⟩ | ⟨patient, rfl⟩ := Worker.takes_cases hw
      · rfl
      · rfl
  | empty hitems => exact .inr (.inr ⟨.inl rfl, rfl⟩)
  | gaveUp hw hitems =>
      refine .inr (.inr ⟨.inr ?_, rfl⟩)
      obtain rfl | rfl := Worker.givesUp_cases hw
      · rfl
      · rfl
  | roused hw hv hawaits => exact .inr (.inr ⟨.inl (deed?_signalled hw), rfl⟩)
  | unheard hw hnone => exact .inr (.inr ⟨.inl (deed?_signalled hw), rfl⟩)
  | stirred hw => exact .inr (.inr ⟨.inl (deed?_wake hw), rfl⟩)

/-- A thread gives up only if there is no call, and then nothing else changes. -/
theorem Change.eq_of_gaveUp (h : Change m thread w w' m') (hw' : w' = .collected none) :
    m.queue.items = [] ∧ m' = m.set thread (.collected none) := by
  cases h with
  | gaveUp hw hitems => exact ⟨hitems, rfl⟩
  | roused hw hv hawaits => exact absurd hw' (signalled_ne hw)
  | unheard hw hnone => exact absurd hw' (signalled_ne hw)
  | stirred hw => exact absurd hw' (wake_ne hw)
  | _ => contradiction

end Change

/-! ## What holds in every run -/

/-- The queue and the threads are what the history says. -/
structure Ledger (history : History) (m : Monitor) : Prop where
  bounded : m.queue.size ≤ m.queue.capacity
  order : takenCalls history ++ m.queue.items = putCalls history
  past : ∀ {thread : Nat} {w : Worker}, m.workers[thread]? = some w →
    Past w (deedsOf history thread)
  known : ∀ e ∈ history, e.1 < m.workers.length

variable {capacity : Nat} {history : History} {m m' : Monitor}

/-- A thread that has not come has done nothing. -/
theorem Ledger.deedsOf_newcomer (h : Ledger history m) :
    deedsOf history m.workers.length = [] := by
  rw [deedsOf, List.map_eq_nil_iff, List.filter_eq_nil_iff]
  intro e he
  have hlt : e.1 < m.workers.length := h.known e he
  simp only [beq_iff_eq]
  omega

theorem Ledger.enter (h : Ledger history m) (errand : Errand) :
    Ledger (history ++ [Deed.came errand].map (m.workers.length, ·)) (m.enter errand) where
  bounded := h.bounded
  order := by
    rw [takenCalls_append, putCalls_append, Monitor.enter, ← h.order]
    simp [List.filterMap_cons, Deed.took?, Deed.put?]
  past := by
    intro thread w hw
    by_cases hnew : thread = m.workers.length
    · subst hnew
      obtain rfl : errand.start = w := by simpa [Monitor.enter] using hw
      rw [deedsOf_append_self, h.deedsOf_newcomer]
      exact past_start errand
    · rw [deedsOf_append_of_ne _ _ hnew]
      refine h.past ?_
      rw [← hw, Monitor.enter]
      grind
  known := by
    intro e he
    rw [Monitor.enter, List.length_append]
    obtain hpast | hnew := List.mem_append.mp he
    · exact Nat.lt_add_right 1 (h.known e hpast)
    · obtain rfl := List.mem_singleton.mp hnew
      exact Nat.lt_succ_self _

theorem Ledger.change {thread : Nat} {w w' : Worker} (h : Ledger history m)
    (hw : m.workers[thread]? = some w) (hchange : Change m thread w w' m') :
    Ledger (history ++ (w.deed? w').toList.map (thread, ·)) m' where
  bounded := by
    have hbounded := h.bounded
    rw [hchange.capacity_eq]
    obtain ⟨call, -, hroom, hqueue⟩ | ⟨call, items, -, hitems, hqueue⟩ | ⟨-, hqueue⟩ :=
      hchange.queue_cases
    · have hlt : m.queue.size < m.queue.capacity := by simpa [CompletionQueue.hasRoom] using hroom
      rw [CompletionQueue.size, hqueue, List.length_append]
      exact hlt
    · rw [CompletionQueue.size, hitems, List.length_cons] at hbounded
      rw [CompletionQueue.size, hqueue]
      exact Nat.le_of_succ_le hbounded
    · rwa [hqueue]
  order := by
    rw [takenCalls_append, putCalls_append]
    obtain ⟨call, hdeed, -, hqueue⟩ | ⟨call, items, hdeed, hitems, hqueue⟩ | ⟨hdeed, hqueue⟩ :=
      hchange.queue_cases
    · rw [hdeed, hqueue, ← h.order]
      simp [Deed.took?, Deed.put?]
    · rw [hdeed, hqueue, ← h.order, hitems]
      simp [Deed.took?, Deed.put?]
    · rw [hqueue, ← h.order]
      obtain hdeed | hdeed := hdeed
      · simp [hdeed]
      · simp [hdeed, List.filterMap_cons, Deed.took?, Deed.put?]
  past := by
    intro other v hv
    by_cases hself : other = thread
    · subst hself
      obtain rfl : w' = v := Option.some.inj ((hchange.worker_eq hw).symm.trans hv)
      rw [deedsOf_append_self]
      exact (h.past hw).change hchange
    · rw [deedsOf_append_of_ne _ _ hself]
      obtain hsame | ⟨u, want, hu, hawaits, hwoken⟩ := hchange.other hself
      · exact h.past (hsame.symm.trans hv)
      · obtain rfl : u.wake = v := Option.some.inj (hwoken.symm.trans hv)
        exact (h.past hu).wake hawaits
  known := by
    intro e he
    rw [hchange.length_workers]
    obtain hpast | hnew := List.mem_append.mp he
    · exact h.known e hpast
    · obtain ⟨deed, -, rfl⟩ := List.mem_map.mp hnew
      exact (List.getElem?_eq_some_iff.mp hw).1

/-- The ledger is right in every run. -/
theorem Run.ledger (run : Run capacity history m) : Ledger history m := by
  refine run.induct ⟨Nat.zero_le _, rfl, ?_, ?_⟩ (fun errand h => h.enter errand)
    fun h hw hchange => h.change hw hchange
  · intro thread w hw
    contradiction
  · intro e he
    contradiction

/-- A completion queue is a bounded queue that is first in, first out and loses nothing, whatever
threads come and in whatever order they step.  There are never more calls in it than fit.  The
calls taken so far and behind them those in the queue are the calls put so far, in the order they
were put.  Each thread has done what its state says, and so has put its call at most once, and
returns the one call it has taken.  A thread gives up only when there is no call, and then changes
nothing but its own state. -/
theorem fifo_without_loss (run : Run capacity history m) :
    m.queue.capacity = capacity ∧ m.queue.size ≤ capacity ∧
    takenCalls history ++ m.queue.items = putCalls history ∧
    (∀ thread w, m.workers[thread]? = some w → Past w (deedsOf history thread)) ∧
    ∀ thread s m', m.step? thread s = some m' → m'.workers[thread]? = some (.collected none) →
      m.queue.items = [] ∧ m' = m.set thread (.collected none) := by
  have h : Ledger history m := run.ledger
  refine ⟨run.capacity_eq, run.capacity_eq ▸ h.bounded, h.order, fun thread w => h.past, ?_⟩
  intro thread s m' hstep hgone
  obtain ⟨w, w', hw, hchange⟩ := change_of_step hstep
  have hw' : w' = .collected none := Option.some.inj ((hchange.worker_eq hw).symm.trans hgone)
  exact hchange.eq_of_gaveUp hw'

/-- A queue with room for one call, two threads that deliver and three that collect.  The second
delivery finds the queue full and sleeps until the first call is taken, and the last thread wakes
to an empty queue and gives up. -/
theorem fifo_without_loss_one_place :
    ∃ history m m', Run 1 history m ∧ m.step? 4 .expire = some m' ∧
      history = [(0, .came (.deliver 7)), (0, .put 7), (1, .came (.deliver 8)),
        (2, .came (.collect true)), (2, .took 7), (1, .put 8), (3, .came (.collect false)),
        (3, .took 8), (4, .came (.collect false))] ∧
      takenCalls history ++ m.queue.items = [7, 8] ∧
      Past (.releasing 8) [.came (.collect false), .took 8] ∧
      m' = m.set 4 (.collected none) := by
  have start : Run 1 [] { queue := { capacity := 1 } } := .opened
  have full := (start.come (.deliver 7) rfl).step 0 (.signal none) rfl
  have taken := (full.come (.deliver 8) rfl).come (.collect true) rfl
  have room := (taken.step 2 (.signal (some 1)) rfl).step 1 .test rfl
  have empty := (room.come (.collect false) rfl).come (.collect false) rfl
  have woken := empty.step 1 (.signal (some 4)) rfl
  obtain ⟨-, -, horder, hpast, hgone⟩ := fifo_without_loss woken
  exact ⟨_, _, _, woken, rfl, rfl, horder, hpast 3 _ rfl, (hgone 4 .expire _ rfl rfl).2⟩

end RemoteCalls.Monitor
