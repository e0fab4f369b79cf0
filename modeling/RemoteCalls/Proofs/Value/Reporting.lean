import RemoteCalls.Proofs.Value.Sequence

/-!
# RemoteCalls.Proofs.Value.Reporting

What a read or a write reports, and the condition of its stream.

A read is honest (`Source.Honest`) if on a good stream it succeeds just when it
leaves the stream good, and on any other stream does nothing and says that the
stream is not ready.  Bits may be raised at any octet, between transfers that are
judged in different ways, and a transfer may end with an exception; reads of all
types are honest all the same.

So are writes (`Sink.Honest`), but for one fault that has nothing to do with the
sink: a string or a list that is too long for its count is found by its length
alone.  It is refused on any sink, and leaves a good one good.

A stream that is not good stays so until its bits are lowered, so after the first
other fault everything is refused until then.

Main statement: `reports_agree_with_condition`.
-/

namespace RemoteCalls

/-! ## Sinks -/

namespace Sink

/-- The outcome of a write that finds its sink good: a success leaves it good, and so does something
that is too long for its count, but no fault does that comes of the sink.  `fits` says whether
nothing is too long. -/
structure Judged (fits : Prop) (r : Sink × Option Fault) : Prop where
  written : r.2 = none → fits
  tooLarge : r.2 = some .objectTooLarge → ¬ fits
  good_iff : r.1.condition = .good ↔ r.2 = none ∨ r.2 = some .objectTooLarge

/-- The outcome of a write to `s` agrees with the condition of the sink: it is a success just when
nothing is too long for its count and the sink is good before and after it.  A fault leaves no sink
good, unless something was too long.  If the sink was not good nothing has been done, and the fault
says so, unless the very first count was too small.  `fits` says whether nothing is too long, and
`leads` whether the first string or list is not, if the value begins with one. -/
structure Honest (fits leads : Prop) (s : Sink) (r : Sink × Option Fault) : Prop where
  succeeds : r.2 = none ↔ fits ∧ s.condition = .good ∧ r.1.condition = .good
  good_iff : r.1.condition = .good ↔
    s.condition = .good ∧ (r.2 = none ∨ r.2 = some .objectTooLarge)
  tooLarge : r.2 = some .objectTooLarge → ¬ fits
  refused : s.condition ≠ .good → leads → r = (s, some .streamNotReady)
  passedOver : s.condition ≠ .good → ¬ leads → r = (s, some .objectTooLarge)

variable {fits fits' leads : Prop} {s : Sink} {r : Sink × Option Fault}

/-- It is enough to know what happens on a good sink and on another one. -/
theorem Honest.of_judged (hleads : fits → leads) (hjudged : s.condition = .good → Judged fits r)
    (hrefused : s.condition ≠ .good → leads → r = (s, some .streamNotReady))
    (hpassed : s.condition ≠ .good → ¬ leads → r = (s, some .objectTooLarge)) :
    Honest fits leads s r := by
  by_cases hgood : s.condition = .good
  · have h := hjudged hgood
    refine ⟨⟨fun hnone => ⟨h.written hnone, hgood, h.good_iff.mpr (.inl hnone)⟩, ?_⟩,
      h.good_iff.trans (and_iff_right hgood).symm, h.tooLarge, hrefused, hpassed⟩
    rintro ⟨hfits, -, hafter⟩
    exact (h.good_iff.mp hafter).resolve_right fun hlarge => h.tooLarge hlarge hfits
  · by_cases hlead : leads
    · rw [hrefused hgood hlead]
      exact ⟨by simp [hgood], by simp [hgood], by simp, fun _ _ => rfl,
        fun _ hnot => absurd hlead hnot⟩
    · rw [hpassed hgood hlead]
      exact ⟨by simp [hgood], by simp [hgood], fun _ => mt hleads hlead,
        fun _ hmine => absurd hmine hlead, fun _ _ => rfl⟩

theorem Honest.judged (h : Honest fits leads s r) (hgood : s.condition = .good) :
    Judged fits r where
  written hnone := (h.succeeds.mp hnone).1
  tooLarge := h.tooLarge
  good_iff := h.good_iff.trans (and_iff_right hgood)

/-- A sink that is not good stays as it is. -/
theorem Honest.fst_eq (h : Honest fits leads s r) (hnot : s.condition ≠ .good) : r.1 = s := by
  by_cases hlead : leads
  · rw [h.refused hnot hlead]
  · rw [h.passedOver hnot hlead]

/-- A transfer is judged by the condition it leaves; one that ends with an exception has lost
octets. -/
theorem put_eq_none_iff (s : Sink) (bytes : Bytes) :
    (s.put bytes).2 = none ↔ (s.put bytes).1.condition = .good := by
  simp only [put]
  split
  case isFalse => exact Condition.verdict_eq_none
  case isTrue hescaped =>
    unfold transfer at hescaped ⊢
    split at hescaped
    case isFalse => contradiction
    case isTrue hgood =>
      simp only [Bool.and_eq_true] at hescaped
      simp only [hgood, if_true, hescaped.2, reduceCtorEq, false_iff]
      exact Condition.raise_ne_good (by decide)

/-- A transfer does not care about counts. -/
theorem put_ne_tooLarge (s : Sink) (bytes : Bytes) : (s.put bytes).2 ≠ some .objectTooLarge := by
  simp only [put]
  split
  case isTrue => simp
  case isFalse => exact Condition.verdict_ne_tooLarge _

theorem judged_put (s : Sink) (bytes : Bytes) : Judged True (s.put bytes) where
  written _ := trivial
  tooLarge hlarge := absurd hlarge (s.put_ne_tooLarge bytes)
  good_iff := (s.put_eq_none_iff bytes).symm.trans
    (or_iff_left (s.put_ne_tooLarge bytes)).symm

theorem honest_putReady (s : Sink) (bytes : Bytes) : Honest True True s (s.putReady bytes) := by
  unfold putReady
  split
  case h_1 f hready =>
    obtain ⟨hnot, rfl⟩ := Condition.readiness_eq_some.mp hready
    exact .of_judged id (fun hgood => absurd hgood hnot) (fun _ _ => rfl)
      fun _ hlead => absurd trivial hlead
  case h_2 hready =>
    have hgood := Condition.readiness_eq_none.mp hready
    exact .of_judged id (fun _ => s.judged_put bytes) (fun hnot => absurd hgood hnot)
      fun hnot => absurd hgood hnot

/-- What goes on only after a success. -/
theorem Judged.andThen (h : Judged fits r) {next : Sink → Sink × Option Fault}
    (hnext : ∀ s', s'.condition = .good → Judged fits' (next s')) :
    Judged (fits ∧ fits') (andThen r next) := by
  rcases r with ⟨s', _ | f⟩
  · have hlater := hnext s' (h.good_iff.mpr (.inl rfl))
    exact ⟨fun hnone => ⟨h.written rfl, hlater.written hnone⟩,
      fun hlarge hboth => hlater.tooLarge hlarge hboth.2, hlater.good_iff⟩
  · exact ⟨fun hnone => by contradiction, fun hlarge hboth => h.tooLarge hlarge hboth.1,
      h.good_iff⟩

theorem Honest.andThen (h : Honest fits leads s r) {next : Sink → Sink × Option Fault}
    (hleads : fits → leads) (hnext : ∀ s', s'.condition = .good → Judged fits' (next s')) :
    Honest (fits ∧ fits') leads s (andThen r next) :=
  .of_judged (fun hboth => hleads hboth.1) (fun hgood => (h.judged hgood).andThen hnext)
    (fun hnot hlead => by rw [h.refused hnot hlead]; rfl)
    fun hnot hlead => by rw [h.passedOver hnot hlead]; rfl

/-- Something that is too long is found before the sink is looked at. -/
theorem honest_tooLarge (hnot : ¬ fits) (hlead : ¬ leads) (s : Sink) :
    Honest fits leads s (s, some .objectTooLarge) :=
  .of_judged (fun hfits => absurd hfits hnot)
    (fun hgood => ⟨by simp, fun _ => hnot, by simp [hgood]⟩)
    (fun _ hmine => absurd hmine hlead) fun _ _ => rfl

theorem Judged.congr (h : Judged fits r) (hsame : fits ↔ fits') : Judged fits' r :=
  propext hsame ▸ h

theorem Honest.congr {leads' : Prop} (h : Honest fits leads s r) (hsame : fits ↔ fits')
    (hlead : leads ↔ leads') : Honest fits' leads' s r :=
  propext hsame ▸ propext hlead ▸ h

end Sink

namespace Ty

open Sink

/-- Whether the string or the list that a value begins with, if it does, is short enough for its
count. -/
def Leads : (t : Ty) → t.Val → Prop
  | bytes, v => List.length v < countLimit
  | bytesList, v => List.length v < countLimit
  | pair a _, v => a.Leads v.1
  | _, _ => True

theorem leads_of_fits {t : Ty} {v : t.Val} (h : t.Fits v) : t.Leads v := by
  induction t with
  | bytesList => exact h.1
  | pair a b iha _ => exact iha h.1
  | _ => exact h

theorem honest_writeBytes (value : Bytes) (s : Sink) :
    Honest (value.length < countLimit) (value.length < countLimit) s (writeBytes value s) := by
  by_cases hfits : value.length < countLimit
  · rw [writeBytes, writeSized, if_neg (Nat.not_le.mpr hfits)]
    exact ((honest_putReady s _).andThen id fun s' _ => s'.judged_put value).congr
      (by simp [hfits]) (by simp [hfits])
  · rw [writeBytes, writeSized, if_pos (Nat.not_lt.mp hfits)]
    exact honest_tooLarge hfits hfits s

theorem judged_writeEach (values : List Bytes) {s : Sink} (hgood : s.condition = .good) :
    Judged (∀ value ∈ values, value.length < countLimit) (writeEach values s) := by
  induction values generalizing s with
  | nil => exact ⟨by simp, by simp [writeEach], by simp [writeEach, hgood]⟩
  | cons value values ih =>
      exact (((honest_writeBytes value s).judged hgood).andThen fun s' hs' => ih hs').congr
        (by simp only [List.forall_mem_cons])

/-- Writing a value is honest. -/
theorem honest_write (t : Ty) (v : t.Val) (s : Sink) :
    Honest (t.Fits v) (t.Leads v) s (t.write v s) := by
  induction t generalizing s with
  | bool => exact honest_putReady s _
  | unsigned w => exact honest_putReady s _
  | signed w => exact honest_putReady s _
  | bytes => exact honest_writeBytes v s
  | bytesList =>
      by_cases hcount : List.length v < countLimit
      · rw [write, if_neg (Nat.not_le.mpr hcount)]
        exact ((honest_putReady s _).andThen id fun s' hs' => judged_writeEach v hs').congr
          (by simp [Fits, hcount]) (by simp [Leads, hcount])
      · rw [write, if_pos (Nat.not_lt.mp hcount)]
        exact honest_tooLarge (fun hfits => hcount hfits.1) hcount s
  | pair a b iha ihb =>
      exact (iha v.1 s).andThen leads_of_fits fun s' hs' => (ihb v.2 s').judged hs'

end Ty

/-! ## Sources -/

namespace Source

/-- The outcome of reading from `s` into a variable that held `old` agrees with the condition of the
source: it is a success just when the source is good before and after it, and if the source was not
good, nothing has been done. -/
structure Honest {α : Type} (old : α) (s : Source) (r : Reading α) : Prop where
  succeeds : r.fault = none ↔ s.condition = .good ∧ r.source.condition = .good
  refused : s.condition ≠ .good → r = ⟨old, s, some .streamNotReady⟩

section Honest

variable {α : Type} {old v : α} {s s' : Source} {r : Reading α}

theorem Honest.judged (h : Honest old s r) (hgood : s.condition = .good) :
    r.fault = none ↔ r.source.condition = .good := by
  rw [h.succeeds, and_iff_right hgood]

/-- A fault leaves no source good. -/
theorem Honest.ne_good (h : Honest old s r) (hfault : r.fault ≠ none) :
    r.source.condition ≠ .good := by
  by_cases hgood : s.condition = .good
  · exact mt (h.judged hgood).mpr hfault
  · rw [h.refused hgood]
    exact hgood

/-- On a good source nothing is refused. -/
theorem honest_of_good (hgood : s.condition = .good)
    (hjudged : r.fault = none ↔ r.source.condition = .good) : Honest old s r :=
  ⟨by rw [hjudged, and_iff_right hgood], fun hnot => absurd hgood hnot⟩

theorem honest_refused (hnot : s.condition ≠ .good) :
    Honest old s ⟨old, s, some .streamNotReady⟩ :=
  ⟨by simp [hnot], fun _ => rfl⟩

theorem honest_failed (hgood : s.condition = .good) (hnot : s'.condition ≠ .good) (f : Fault) :
    Honest old s ⟨v, s', some f⟩ :=
  honest_of_good hgood (by simp [hnot])

theorem honest_done (hgood : s.condition = .good) (hgood' : s'.condition = .good) :
    Honest old s ⟨v, s', none⟩ :=
  honest_of_good hgood (by simp [hgood'])

theorem Honest.map {β : Type} (h : Honest old s r) (f : α → β) : Honest (f old) s (r.map f) :=
  ⟨h.succeeds, fun hnot => by rw [h.refused hnot, Reading.map]⟩

end Honest

/-- A transfer is judged by the condition it leaves; one that ends with an exception has lost
octets. -/
theorem fault_transfer_eq_none_iff (s : Source) (count : Nat) :
    (s.transfer count).fault = none ↔ (s.transfer count).source.condition = .good := by
  unfold Taken.fault
  split
  case isFalse => exact Condition.verdict_eq_none
  case isTrue hescaped =>
    unfold transfer at hescaped ⊢
    split at hescaped
    case isFalse => contradiction
    case isTrue hgood =>
      simp only [Bool.and_eq_true, beq_iff_eq, decide_eq_true_eq] at hescaped
      simp only [hgood, if_true, hescaped.1, hescaped.2, reduceCtorEq, false_iff]
      exact Condition.raise_ne_good (by decide)

/-- What became of asking `s`, which must be good to begin with. -/
inductive Asked {α : Type} (s : Source) : Source × Except Fault α → Prop where
  | refused (hnot : s.condition ≠ .good) : Asked s (s, .error .streamNotReady)
  | failed {s' : Source} {f : Fault} (hgood : s.condition = .good) (hnot : s'.condition ≠ .good) :
      Asked s (s', .error f)
  | done {s' : Source} {x : α} (hgood : s.condition = .good) (hgood' : s'.condition = .good) :
      Asked s (s', .ok x)

theorem asked_fetch (s : Source) (count : Nat) : Asked s (s.fetch count) := by
  have htransfer := s.fault_transfer_eq_none_iff count
  unfold fetch
  split
  case h_1 f hready =>
    obtain ⟨hnot, rfl⟩ := Condition.readiness_eq_some.mp hready
    exact .refused hnot
  case h_2 hready =>
    have hgood := Condition.readiness_eq_none.mp hready
    cases hfault : (s.transfer count).fault with
    | none =>
        simp only [hfault]
        exact .done hgood (htransfer.mp hfault)
    | some f =>
        simp only [hfault]
        exact .failed hgood fun hbad => by simp [htransfer.mpr hbad] at hfault

end Source

namespace Ty

open Source

theorem asked_readCount (s : Source) : Asked s (readCount s) := by
  unfold readCount
  have h := s.asked_fetch 4
  generalize s.fetch 4 = r at h
  cases h with
  | refused hnot => exact .refused hnot
  | failed hgood hnot => exact .failed hgood hnot
  | done hgood hgood' => exact .done hgood hgood'

theorem honest_readInteger (w : Width) (old : BitVec w.bits) (s : Source) :
    Honest old s (readInteger w old s) := by
  unfold readInteger
  have h := s.asked_fetch w.octets
  generalize s.fetch w.octets = r at h
  cases h with
  | refused hnot => exact honest_refused hnot
  | failed hgood hnot => exact honest_failed hgood hnot _
  | done hgood hgood' => exact honest_done hgood hgood'

theorem honest_readBool (old : Bool) (s : Source) : Honest old s (readBool old s) := by
  unfold readBool
  have h := s.asked_fetch 1
  generalize s.fetch 1 = r at h
  cases h with
  | refused hnot => exact honest_refused hnot
  | failed hgood hnot => exact honest_failed hgood hnot _
  | done hgood hgood' => exact honest_done hgood hgood'

/-- Between blocks only a failure is looked for.  Other bits are found at the next block, which they
make fail, or at the end. -/
theorem fault_readBlocks_eq_none_iff (size pos : UInt32) (s : Source) :
    (readBlocks size pos s).fault = none ↔
      (readBlocks size pos s).source.condition = .good := by
  induction pos, s using readBlocks.induct size with
  | case1 pos s hlt n t hescaped =>
      have htransfer := s.fault_transfer_eq_none_iff n.toNat
      rw [Taken.fault, if_pos hescaped] at htransfer
      rw [readBlocks, if_pos hlt, if_pos hescaped]
      exact htransfer
  | case2 pos s hlt n t hescaped hfailed =>
      rw [readBlocks, if_pos hlt, if_neg hescaped, if_pos hfailed]
      exact Condition.verdict_eq_none
  | case3 pos s hlt n t hescaped hfailed ih =>
      rw [readBlocks, if_pos hlt, if_neg hescaped, if_neg hfailed]
      exact ih
  | case4 pos s hge =>
      rw [readBlocks, if_neg hge]
      exact Condition.verdict_eq_none

theorem honest_readBytes (old : Bytes) (s : Source) : Honest old s (readBytes old s) := by
  unfold readBytes
  have h := asked_readCount s
  generalize readCount s = r at h
  cases h with
  | refused hnot => exact honest_refused hnot
  | failed hgood hnot => exact honest_failed hgood hnot _
  | done hgood hgood' =>
      exact honest_of_good hgood (fault_readBlocks_eq_none_iff ..)

theorem fault_readEach_eq_none_iff {s : Source} (hgood : s.condition = .good) (count : Nat)
    (before : List Bytes) :
    (readEach count before s).fault = none ↔
      (readEach count before s).source.condition = .good := by
  induction count generalizing before s with
  | zero => simp [readEach, hgood]
  | succ count ih =>
      have hfirst := (honest_readBytes [] s).judged hgood
      rw [readEach]
      rcases hread : readBytes [] s with ⟨value, s', _ | f⟩
      · rw [hread] at hfirst
        exact ih (hfirst.mp rfl) _
      · rw [hread] at hfirst
        simpa using hfirst

theorem honest_readBytesList (old : List Bytes) (s : Source) :
    Honest old s (readBytesList old s) := by
  unfold readBytesList
  have h := asked_readCount s
  generalize readCount s = r at h
  cases h with
  | refused hnot => exact honest_refused hnot
  | failed hgood hnot => exact honest_failed hgood hnot _
  | done hgood hgood' =>
      exact honest_of_good hgood (fault_readEach_eq_none_iff hgood' ..)

/-- Reading a value is honest. -/
theorem honest_read (t : Ty) (old : t.Val) (s : Source) : Honest old s (t.read old s) := by
  induction t generalizing s with
  | bool => exact honest_readBool old s
  | unsigned w => exact honest_readInteger w old s
  | signed w => exact honest_readInteger w old s
  | bytes => exact honest_readBytes old s
  | bytesList => exact honest_readBytesList old s
  | pair a b iha ihb =>
      have hfirst := iha old.1 s
      rw [read]
      rcases hread : a.read old.1 s with ⟨x, s', _ | f⟩
      · rw [hread] at hfirst
        obtain ⟨hgood, hgood'⟩ := hfirst.succeeds.mp rfl
        exact honest_of_good hgood ((ihb old.2 s').judged hgood')
      · rw [hread] at hfirst
        refine ⟨hfirst.succeeds, fun hnot => ?_⟩
        obtain ⟨rfl, rfl, hfault⟩ := Reading.mk.inj (hfirst.refused hnot)
        rw [hfault]

end Ty

/-! ## Until the bits are lowered -/

namespace Source

/-- What can be done with a source. -/
inductive Action where
  | read (old : TypedValue)
  | peek
  | raise (bits : Condition)
  | clear

/-- The source after an action. -/
def perform (s : Source) : Action → Source
  | .read old => (old.ty.read old.val s).source
  | .peek => s.peek.1
  | .raise bits => s.raise bits
  | .clear => s.clear

/-- Only lowering the bits makes a source good again. -/
theorem perform_ne_good {s : Source} (hnot : s.condition ≠ .good) {a : Action} (ha : a ≠ .clear) :
    (s.perform a).condition ≠ .good := by
  cases a with
  | read old =>
      rw [perform, (Ty.honest_read old.ty old.val s).refused hnot]
      exact hnot
  | peek =>
      have hready : s.condition.isGood = false := by
        simpa using mt Condition.isGood_iff.mp hnot
      simp only [perform, peek, hready, Bool.false_eq_true, if_false]
      exact Condition.raise_ne_good (by decide)
  | raise bits => exact fun hgood => hnot (Condition.raise_eq_good.mp hgood).1
  | clear => contradiction

theorem foldl_perform_ne_good {s : Source} (hnot : s.condition ≠ .good) {actions : List Action}
    (hactions : .clear ∉ actions) : (actions.foldl perform s).condition ≠ .good :=
  List.foldlRecOn (motive := fun s => s.condition ≠ .good) actions perform hnot
    fun _ hnot' _ ha => perform_ne_good hnot' (ne_of_mem_of_not_mem ha hactions)

end Source

namespace Sink

/-- What can be done with a sink. -/
inductive Action where
  | write (v : TypedValue)
  | raise (bits : Condition)
  | clear

/-- The sink after an action. -/
def perform (s : Sink) : Action → Sink
  | .write v => (v.ty.write v.val s).1
  | .raise bits => s.raise bits
  | .clear => s.clear

/-- Only lowering the bits makes a sink good again. -/
theorem perform_ne_good {s : Sink} (hnot : s.condition ≠ .good) {a : Action} (ha : a ≠ .clear) :
    (s.perform a).condition ≠ .good := by
  cases a with
  | write v =>
      rw [perform, (v.ty.honest_write v.val s).fst_eq hnot]
      exact hnot
  | raise bits => exact fun hgood => hnot (Condition.raise_eq_good.mp hgood).1
  | clear => contradiction

theorem foldl_perform_ne_good {s : Sink} (hnot : s.condition ≠ .good) {actions : List Action}
    (hactions : .clear ∉ actions) : (actions.foldl perform s).condition ≠ .good :=
  List.foldlRecOn (motive := fun s => s.condition ≠ .good) actions perform hnot
    fun _ hnot' _ ha => perform_ne_good hnot' (ne_of_mem_of_not_mem ha hactions)

end Sink

namespace Header

theorem honest_read (old : Header) (s : Source) : Source.Honest old s (old.read s) :=
  (Ty.honest_read layout old.toVal s).map ofVal

end Header

/-- Whatever the streams do and whichever bits are raised in the middle of a transfer: what a read
or a write reports agrees with the condition of its stream, and on a stream that is not good it does
nothing.  Only a string or list that is too long for its count is reported whatever the condition,
and leaves a good sink good.  Once a stream is not good everything is refused, whatever else is done
with the stream, until its bits are lowered. -/
theorem reports_agree_with_condition :
    (∀ (t : Ty) (old : t.Val) (s : Source), Source.Honest old s (t.read old s)) ∧
    (∀ (old : Header) (s : Source), Source.Honest old s (old.read s)) ∧
    (∀ (t : Ty) (v : t.Val) (s : Sink), Sink.Honest (t.Fits v) (t.Leads v) s (t.write v s)) ∧
    (∀ (h : Header) (s : Sink), Sink.Honest (Header.layout.Fits h.toVal)
      (h.service.length < Ty.countLimit) s (h.write s)) ∧
    (∀ (t : Ty) (old : t.Val) (s : Source) (actions : List Source.Action) (next : TypedValue),
      (t.read old s).fault ≠ none → .clear ∉ actions →
        let later := actions.foldl Source.perform (t.read old s).source
        next.ty.read next.val later = ⟨next.val, later, some .streamNotReady⟩) ∧
    (∀ (t : Ty) (v : t.Val) (s : Sink) (actions : List Sink.Action) (next : TypedValue),
      (t.write v s).2 ≠ none → (t.write v s).2 ≠ some .objectTooLarge ∨ s.condition ≠ .good →
        .clear ∉ actions →
        let later := actions.foldl Sink.perform (t.write v s).1
        (next.ty.Leads next.val →
          next.ty.write next.val later = (later, some .streamNotReady)) ∧
        (¬ next.ty.Leads next.val →
          next.ty.write next.val later = (later, some .objectTooLarge))) := by
  refine ⟨Ty.honest_read, Header.honest_read, Ty.honest_write,
    fun h s => Ty.honest_write Header.layout h.toVal s, ?_, ?_⟩
  · intro t old s actions next hfault hactions later
    have hnot : (t.read old s).source.condition ≠ .good := (t.honest_read old s).ne_good hfault
    have hlater : later.condition ≠ .good := Source.foldl_perform_ne_good hnot hactions
    exact (Ty.honest_read _ _ later).refused hlater
  · intro t v s actions next hfault hother hactions later
    have hnot : (t.write v s).1.condition ≠ .good := by
      rw [ne_eq, (t.honest_write v s).good_iff]
      rintro ⟨hgood, hnone | hlarge⟩
      · exact hfault hnone
      · exact hother.elim (absurd hlarge) (absurd hgood)
    have hlater : later.condition ≠ .good := Sink.foldl_perform_ne_good hnot hactions
    have hnext := next.ty.honest_write next.val later
    exact ⟨hnext.refused hlater, hnext.passedOver hlater⟩

/-- An end of file that is seen in the middle of the second integer, and one in the middle of a
string; lists and headers are refused after that, also when more bits have been raised.  A string
that is too long for its count is no success. -/
theorem reports_agree_with_condition_early_marks :
    let s : Source := { rest := [5, 6, 0, 8], marks := [⟨1, { eof := true }⟩] }
    let wanted : Ty := .pair (.unsigned .w8) (.unsigned .w16)
    let asked := wanted.read (1, 2) s
    let dry := [Source.Action.peek, .raise { bad := true }].foldl Source.perform asked.source
    let k : Sink := { marks := [⟨4, { eof := true }⟩] }
    let told := Ty.bytes.write [7, 8] k
    let full := [Sink.Action.write ⟨.bool, true⟩].foldl Sink.perform told.1
    let tooLong : Bytes := List.replicate Ty.countLimit 0
    (asked.value = (5, 2) ∧ asked.source.condition = { eof := true } ∧ asked.fault = some .fail) ∧
    Ty.bytesList.read [[9]] dry = ⟨[[9]], dry, some .streamNotReady⟩ ∧
    (told.1.written = [2, 0, 0, 0, 7, 8] ∧ told.2 = some .fail) ∧
    Header.layout.write (Header.toVal {}) full = (full, some .streamNotReady) ∧
    Ty.bytes.write tooLong full = (full, some .objectTooLarge) := by
  intro s wanted asked dry k told full tooLong
  obtain ⟨-, -, -, -, hreads, hlater⟩ := reports_agree_with_condition
  have hlater' (next : TypedValue) := hlater .bytes [7, 8] k [.write ⟨.bool, true⟩] next
    (by decide) (.inl (by decide)) (by simp)
  have hheader : Header.layout.Leads (Header.toVal {}) := by
    simp [Ty.Leads, Ty.countLimit, Header.toVal]
  have hlong : ¬ Ty.bytes.Leads tooLong := by simp [Ty.Leads, tooLong]
  exact ⟨by decide, hreads wanted (1, 2) s _ ⟨.bytesList, [[9]]⟩ (by decide) (by simp),
    by decide, (hlater' ⟨Header.layout, Header.toVal {}⟩).1 hheader,
    (hlater' ⟨.bytes, tooLong⟩).2 hlong⟩

/-- **A fault may leave a sink good.**  A string that is too long for its count is refused, and the
next value is written all the same.  On a sink that is not good that string is the only thing
reported. -/
theorem long_string_leaves_sink_good :
    let tooLong : Bytes := List.replicate Ty.countLimit 0
    let told := Ty.bytes.write tooLong .empty
    let broken : Sink := { condition := { fail := true } }
    (Sink.empty.condition = .good ∧ told.1.condition = .good ∧ told.2 = some .objectTooLarge) ∧
    ¬ (told.2 = none ↔ Sink.empty.condition = .good ∧ told.1.condition = .good) ∧
    (Ty.bool.write true told.1).2 = none ∧
    (Ty.bytes.write tooLong broken).2 ≠ some .streamNotReady := by
  intro tooLong told broken
  have hlong : Ty.countLimit ≤ tooLong.length := by simp [tooLong]
  have hwrite (s : Sink) : Ty.bytes.write tooLong s = (s, some .objectTooLarge) := by
    rw [Ty.write, Ty.writeBytes, Ty.writeSized, if_pos hlong]
  have htold : told = (.empty, some .objectTooLarge) := hwrite .empty
  rw [htold, hwrite broken]
  exact ⟨⟨rfl, rfl, rfl⟩, by simp [Sink.empty, Condition.good], by decide, by simp⟩

end RemoteCalls
