import RemoteCalls.Proofs.Monitor.Runs

/-!
# RemoteCalls.Proofs.Monitor.Wakeups

However threads use a completion queue, no wake-up gets lost.

A call in the queue is nobody's loss as long as somebody minds it: a thread that still
has to wake a collector, or a collector that is about to test; and so with room.  What
holds in every run is that while anybody sleeps, there are at least as many who mind as
there are calls, or places (`Attended`).  One step keeps it because it leaves nobody
asleep, leaves nothing there, or takes no more from those who mind than from what is
there (`Change.tally`).

Main statement: `no_lost_wakeup`.
-/

namespace RemoteCalls

namespace Worker

/-- Whether a thread minds what is wanted: it is about to wake a sleeper, or about to test. -/
def minds (want : Want) (w : Worker) : Bool := w.signals want || w.tests want

variable {w : Worker} {want wanted : Want}

theorem awaits_wake (w : Worker) (want : Want) : w.wake.awaits want = false := by
  cases want <;> cases w <;> rfl

/-- A sleeper minds nothing. -/
theorem minds_of_awaits (h : w.awaits wanted = true) : w.minds want = false := by
  obtain ⟨call, rfl, rfl⟩ | ⟨patient, rfl, rfl⟩ := awaits_cases h
  all_goals cases want <;> rfl

/-- A sleeper that is woken minds what it has slept for. -/
theorem minds_wake (h : w.awaits wanted = true) : w.wake.minds want = decide (want = wanted) := by
  obtain ⟨call, rfl, rfl⟩ | ⟨patient, rfl, rfl⟩ := awaits_cases h
  all_goals cases want <;> rfl

theorem awaits_of_signals (h : w.signals wanted = true) : w.awaits want = false := by
  obtain ⟨rfl, rfl⟩ | ⟨call, rfl, rfl⟩ := signals_cases h
  all_goals cases want <;> rfl

theorem minds_of_signals (h : w.signals wanted = true) :
    w.minds want = decide (want = wanted) := by
  obtain ⟨rfl, rfl⟩ | ⟨call, rfl, rfl⟩ := signals_cases h
  all_goals cases want <;> rfl

theorem awaits_signalled (h : w.signals wanted = true) : w.signalled.awaits want = false := by
  obtain ⟨rfl, rfl⟩ | ⟨call, rfl, rfl⟩ := signals_cases h
  all_goals cases want <;> rfl

theorem minds_signalled (h : w.signals wanted = true) : w.signalled.minds want = false := by
  obtain ⟨rfl, rfl⟩ | ⟨call, rfl, rfl⟩ := signals_cases h
  all_goals cases want <;> rfl

/-- A thread that takes a call, or finds none, has not minded room. -/
theorem minds_room_of_takes (h : w.takes = true) : w.minds .room = false := by
  obtain ⟨patient, rfl⟩ | ⟨patient, rfl⟩ := takes_cases h
  all_goals rfl

theorem takes_of_givesUp (h : w.givesUp = true) : w.takes = true := by
  obtain rfl | rfl := givesUp_cases h
  all_goals rfl

end Worker

namespace Monitor

/-- How much there is of what is wanted: calls, or places for calls. -/
def stock : Want → Monitor → Nat
  | .room, m => m.queue.capacity - m.queue.size
  | .call, m => m.queue.size

/-- How many threads sleep until they get what is wanted. -/
def sleepers (want : Want) (m : Monitor) : Nat := m.workers.countP (·.awaits want)

/-- How many threads mind what is wanted. -/
def minders (want : Want) (m : Monitor) : Nat := m.workers.countP (·.minds want)

/-- While anybody sleeps, there are as many who mind as there is to be had. -/
def Attended (want : Want) (m : Monitor) : Prop :=
  sleepers want m ≠ 0 → stock want m ≤ minders want m

/-- There is one thread less in its old state, and one more in its new. -/
theorem countP_set {workers : List Worker} {thread : Nat} {w : Worker}
    (hw : workers[thread]? = some w) (p : Worker → Bool) (w' : Worker) :
    (workers.set thread w').countP p + (p w).toNat = workers.countP p + (p w').toNat := by
  obtain ⟨hlt, hget⟩ := List.getElem?_eq_some_iff.mp hw
  rw [List.countP_set hlt, hget]
  cases hp : p w with
  | false => cases p w' <;> simp
  | true =>
      have hpos : 0 < workers.countP p :=
        List.countP_pos_iff.mpr ⟨w, List.mem_of_getElem? hw, hp⟩
      cases p w' <;> simp <;> omega

section Change

variable {m m' : Monitor} {thread : Nat} {w w' : Worker} {want : Want}

/-- What it does to the numbers that one thread changes its state. -/
theorem tally_set (hw : m.workers[thread]? = some w) (w' : Worker) (want : Want) :
    sleepers want (m.set thread w') + (w.awaits want).toNat =
        sleepers want m + (w'.awaits want).toNat ∧
      minders want (m.set thread w') + (w.minds want).toNat =
        minders want m + (w'.minds want).toNat :=
  ⟨countP_set hw _ w', countP_set hw _ w'⟩

/-- No thread more sleeps in `m'` than in `m`, and those who mind have lost no more than there is
less to be had. -/
def Kept (want : Want) (m m' : Monitor) : Prop :=
  sleepers want m' ≤ sleepers want m ∧
    stock want m' + minders want m ≤ stock want m + minders want m'

/-- A thread that does not go to sleep keeps the balance if it takes no more from those who mind
than from what is there. -/
theorem kept_set {queue : CompletionQueue} (hw : m.workers[thread]? = some w)
    (hawake : w'.awaits want = false)
    (hminds : stock want { m with queue } + (w.minds want).toNat ≤
      stock want m + (w'.minds want).toNat) :
    Kept want m ({ m with queue }.set thread w') := by
  have hold : ({ m with queue } : Monitor).workers[thread]? = some w := hw
  obtain ⟨hsleepers, hminders⟩ := tally_set hold w' want
  have hsame : sleepers want { m with queue } = sleepers want m := rfl
  have hsame' : minders want { m with queue } = minders want m := rfl
  have hstock : stock want ({ m with queue }.set thread w') = stock want { m with queue } := by
    cases want <;> rfl
  rw [hawake, Bool.toNat_false] at hsleepers
  rw [Kept]
  omega

/-- A sleeper that is woken minds from then on in place of the thread that has woken it. -/
theorem kept_wake {v : Worker} {wanted : Want} {sleeper : Nat} (hw : m.workers[thread]? = some w)
    (hsignals : w.signals wanted = true) (hv : m.workers[sleeper]? = some v)
    (hawaits : v.awaits wanted = true) (want : Want) :
    Kept want m ((m.set sleeper v.wake).set thread w.signalled) := by
  have hne : sleeper ≠ thread := by
    rintro rfl
    obtain rfl : w = v := Option.some.inj (hw.symm.trans hv)
    rw [Worker.awaits_of_signals hsignals] at hawaits
    contradiction
  have hstill : (m.set sleeper v.wake).workers[thread]? = some w :=
    (List.getElem?_set_ne hne).trans hw
  obtain ⟨hsleepers, hminders⟩ := tally_set hv v.wake want
  obtain ⟨hsleepers', hminders'⟩ := tally_set hstill w.signalled want
  rw [Worker.awaits_wake] at hsleepers
  rw [Worker.minds_of_awaits hawaits, Worker.minds_wake hawaits] at hminders
  rw [Worker.awaits_of_signals hsignals, Worker.awaits_signalled hsignals] at hsleepers'
  rw [Worker.minds_of_signals hsignals, Worker.minds_signalled hsignals] at hminders'
  rw [Bool.toNat_false] at hsleepers hsleepers' hminders hminders'
  have hstock : stock want ((m.set sleeper v.wake).set thread w.signalled) = stock want m := by
    cases want <;> rfl
  exact ⟨by omega, by omega⟩

/-- A step leaves nobody asleep, leaves nothing there, or keeps the balance. -/
theorem Change.tally (h : Change m thread w w' m') (hw : m.workers[thread]? = some w)
    (want : Want) : sleepers want m' = 0 ∨ stock want m' = 0 ∨ Kept want m m' := by
  cases h with
  | @put call hroom =>
      have hlt : m.queue.size < m.queue.capacity := of_decide_eq_true hroom
      have hsize : (m.queue.items ++ [call]).length = m.queue.size + 1 := List.length_append
      refine .inr (.inr (kept_set hw ?_ ?_))
      · cases want <;> rfl
      · cases want with
        | room =>
            change m.queue.capacity - (m.queue.items ++ [call]).length + 1 ≤
              m.queue.capacity - m.queue.size + 0
            omega
        | call => exact Nat.le_of_eq hsize
  | full hfull =>
      cases want with
      | room =>
          have hge : ¬m.queue.size < m.queue.capacity := of_decide_eq_false hfull
          exact .inr (.inl (Nat.sub_eq_zero_of_le (Nat.le_of_not_lt hge)))
      | call => exact .inr (.inr (kept_set hw rfl (Nat.le_refl _)))
  | @took _ call items hw' hitems =>
      have hsize : m.queue.size = items.length + 1 := congrArg List.length hitems
      refine .inr (.inr (kept_set hw ?_ ?_))
      · cases want <;> rfl
      · cases want with
        | room =>
            rw [Worker.minds_room_of_takes hw']
            change m.queue.capacity - items.length + 0 ≤ m.queue.capacity - m.queue.size + 1
            omega
        | call =>
            have hone : (w.minds .call).toNat ≤ 1 := Bool.toNat_le _
            change items.length + (w.minds .call).toNat ≤ m.queue.size + 0
            omega
  | empty hitems =>
      cases want with
      | room => exact .inr (.inr (kept_set hw rfl (Nat.le_refl _)))
      | call => exact .inr (.inl (congrArg List.length hitems))
  | gaveUp hw' hitems =>
      cases want with
      | room =>
          have hminds : w.minds .room = false :=
            Worker.minds_room_of_takes (Worker.takes_of_givesUp hw')
          exact .inr (.inr (kept_set hw rfl (by rw [hminds]; exact Nat.le_refl _)))
      | call => exact .inr (.inl (congrArg List.length hitems))
  | roused hsignals hv hawaits => exact .inr (.inr (kept_wake hw hsignals hv hawaits want))
  | @unheard _ wanted hsignals hnone =>
      -- nobody has heard the signal because nobody sleeps for it; the other want is untouched
      by_cases hwant : want = wanted
      · subst hwant
        have hnobody : sleepers want m = 0 := by
          rw [sleepers, List.countP_eq_zero]
          simpa using hnone
        obtain ⟨hsleepers, -⟩ := tally_set hw w.signalled want
        rw [Worker.awaits_of_signals hsignals, Worker.awaits_signalled hsignals, hnobody]
          at hsleepers
        exact .inl hsleepers
      · refine .inr (.inr (kept_set hw (Worker.awaits_signalled hsignals) ?_))
        rw [Worker.minds_of_signals hsignals, decide_eq_false hwant]
        exact Nat.le_add_right _ _
  | stirred hawaits =>
      refine .inr (.inr (kept_set hw (Worker.awaits_wake _ _) ?_))
      rw [Worker.minds_of_awaits hawaits]
      exact Nat.le_add_right _ _

theorem Attended.change (h : Attended want m) (hw : m.workers[thread]? = some w)
    (hchange : Change m thread w w' m') : Attended want m' := by
  intro hsleepers
  obtain hnobody | hnothing | ⟨hfewer, hkept⟩ := hchange.tally hw want
  · exact absurd hnobody hsleepers
  · exact hnothing ▸ Nat.zero_le _
  · have hold : stock want m ≤ minders want m := h (by omega)
    omega

end Change

variable {capacity : Nat} {history : History} {m : Monitor} {want : Want}

/-- A thread more, which is about to test, minds what there is. -/
theorem Attended.enter (h : Attended want m) (errand : Errand) :
    Attended want (m.enter errand) := by
  intro hsleepers
  have hawake : errand.start.awaits want = false := by
    cases errand <;> cases want <;> rfl
  have hmore : minders want m ≤ minders want (m.enter errand) := by
    rw [minders, minders, Monitor.enter, List.countP_append]
    exact Nat.le_add_right _ _
  have hsame : sleepers want (m.enter errand) = sleepers want m := by
    simp [sleepers, Monitor.enter, hawake]
  have hold : stock want m ≤ minders want m := h (hsame ▸ hsleepers)
  have hstock : stock want (m.enter errand) = stock want m := by
    cases want <;> rfl
  omega

theorem Run.attended (run : Run capacity history m) (want : Want) : Attended want m :=
  run.induct (P := fun _ m => Attended want m) (fun hsleepers => absurd rfl hsleepers)
    (fun errand h => h.enter errand) fun h hw hchange => h.change hw hchange

/-- No wake-up gets lost, whatever threads come and in whatever order they step.  While anybody
sleeps for want of a call, no fewer threads than there are calls still have to wake a collector or
are about to test, and so with room.  Once every signal that is due has been sent, and every thread
that was woken has tested, nobody sleeps for want of a call while there is one, nor for want of room
while there is some. -/
theorem no_lost_wakeup (run : Run capacity history m) :
    (∀ want, (∃ w ∈ m.workers, w.awaits want = true) →
      stock want m ≤ m.workers.countP fun w => w.signals want || w.tests want) ∧
    ((∀ w ∈ m.workers, ∀ want, w.signals want = false ∧ w.tests want = false) →
      (∀ w ∈ m.workers, w.awaitsCall = true → m.queue.items = []) ∧
      ∀ w ∈ m.workers, w.awaitsRoom = true → capacity ≤ m.queue.size) := by
  have hattended : ∀ want, (∃ w ∈ m.workers, w.awaits want = true) →
      stock want m ≤ minders want m := by
    intro want hasleep
    exact run.attended want (Nat.ne_of_gt (List.countP_pos_iff.mpr hasleep))
  refine ⟨hattended, fun hidle => ?_⟩
  have hnobody : ∀ want, minders want m = 0 := by
    intro want
    rw [minders, List.countP_eq_zero]
    intro w hw
    obtain ⟨hsignals, htests⟩ := hidle w hw want
    simp [Worker.minds, hsignals, htests]
  refine ⟨fun w hw hawaits => ?_, fun w hw hawaits => ?_⟩
  · have hstock : m.queue.size ≤ minders .call m := hattended .call ⟨w, hw, hawaits⟩
    rw [hnobody, Nat.le_zero] at hstock
    exact List.eq_nil_of_length_eq_zero hstock
  · have hstock : m.queue.capacity - m.queue.size ≤ minders .room m :=
      hattended .room ⟨w, hw, hawaits⟩
    rw [hnobody, run.capacity_eq] at hstock
    omega

/-- A call comes for the first of two collectors, and the second takes it before the first has
tested: the first sleeps again, and there is no call. -/
theorem no_lost_wakeup_newcomer :
    ∃ history m, Run 1 history m ∧
      m.workers = [.awaitingCall true, .delivered, .collected (some 7)] ∧
      (∀ w ∈ m.workers, ∀ want, w.signals want = false ∧ w.tests want = false) ∧
      m.queue.items = [] := by
  have start : Run 1 [] { queue := { capacity := 1 } } := .opened
  have asleep := start.come (.collect true) rfl
  have woken := (asleep.come (.deliver 7) rfl).step 1 (.signal (some 0)) rfl
  have taken := ((woken.come (.collect true) rfl).step 2 (.signal none) rfl).step 0 .test rfl
  have idle : ∀ w ∈ [Worker.awaitingCall true, .delivered, .collected (some 7)], ∀ want,
      w.signals want = false ∧ w.tests want = false := by
    intro w hw want
    cases want <;> revert w hw <;> decide
  have hempty := ((no_lost_wakeup taken).2 idle).1 (.awaitingCall true) (.head _) rfl
  exact ⟨_, _, taken, rfl, idle, hempty⟩

end Monitor

end RemoteCalls
