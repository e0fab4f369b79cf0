import RemoteCalls.Stream.Sink
import RemoteCalls.Stream.Source

/-!
# RemoteCalls.Proofs.Stream.Plain

Streams that raise nothing of their own.  A quiet source is one that gives its
octets and then ends, in any way; a plain one reports the end of the file where
they end.  A plain sink has no limit.

Bodies and headers are written to plain sinks and read from plain sources.
-/

namespace RemoteCalls

/-- The fault of asking for more octets than there are. -/
def Ending.fault : Ending → Fault
  | endOfFile => .prematureEof
  | failing => .bad
  | escaping => .exceptionOccurred

namespace Source

/-! ## Quiet sources -/

/-- Whether a source is good, and stays so as long as it has octets. -/
structure IsQuiet (s : Source) : Prop where
  good : s.condition = .good
  unmarked : s.marks = []

/-- A source that has given `count` octets. -/
def skip (s : Source) (count : Nat) : Source :=
  { s with rest := s.rest.drop count, position := s.position + count }

/-- A source that was asked for more octets than it had. -/
def exhausted (s : Source) : Source :=
  { s with
    rest := []
    position := s.position + s.rest.length
    condition := s.ending.shortfall }

section Quiet

variable {s : Source} {count : Nat}

theorem IsQuiet.skip (h : s.IsQuiet) (count : Nat) : (s.skip count).IsQuiet := ⟨h.good, h.unmarked⟩

theorem IsQuiet.isFailed_skip (h : s.IsQuiet) (count : Nat) :
    (s.skip count).condition.isFailed = false := by
  rw [(h.skip count).good]
  rfl

theorem skip_skip (s : Source) (m n : Nat) : (s.skip m).skip n = s.skip (m + n) := by
  simp [Source.skip, Nat.add_assoc]

theorem isFailed_exhausted (s : Source) : s.exhausted.condition.isFailed = true := by
  rw [exhausted]
  cases s.ending <;> rfl

theorem transfer_of_le (h : s.IsQuiet) (hroom : count ≤ s.rest.length) :
    s.transfer count = ⟨s.rest.take count, s.skip count, false⟩ := by
  have hlen : (s.rest.take count).length = count := List.length_take_of_le hroom
  simp [transfer, h.good, h.unmarked, Condition.good, Condition.isGood, hlen, Condition.raise,
    Source.skip]

theorem transfer_of_lt (h : s.IsQuiet) (hshort : s.rest.length < count) :
    s.transfer count = ⟨s.rest, s.exhausted, s.ending == .escaping⟩ := by
  have htake : s.rest.take count = s.rest := List.take_of_length_le (Nat.le_of_lt hshort)
  have hdrop : s.rest.drop count = [] := List.drop_eq_nil_of_le (Nat.le_of_lt hshort)
  simp [transfer, exhausted, h.good, h.unmarked, Condition.good, Condition.isGood, htake, hdrop,
    hshort, Condition.raise]

theorem length_bytes_transfer (h : s.IsQuiet) (count : Nat) :
    (s.transfer count).bytes.length = min count s.rest.length := by
  by_cases hroom : count ≤ s.rest.length
  · rw [transfer_of_le h hroom, List.length_take]
  · rw [transfer_of_lt h (Nat.not_le.mp hroom), Nat.min_eq_right (Nat.le_of_not_le hroom)]

/-- A transfer that has all its octets is no fault. -/
theorem fault_transfer_of_le (h : s.IsQuiet) (hroom : count ≤ s.rest.length) :
    (s.transfer count).fault = none := by
  rw [transfer_of_le h hroom]
  exact Condition.verdict_eq_none.mpr (h.skip count).good

/-- A transfer that comes short is a fault, which the ending tells. -/
theorem fault_transfer_of_lt (h : s.IsQuiet) (hshort : s.rest.length < count) :
    (s.transfer count).fault = some s.ending.fault := by
  rw [transfer_of_lt h hshort, Taken.fault, exhausted]
  cases s.ending <;> rfl

/-- A transfer can be made in two. -/
theorem transfer_add (h : s.IsQuiet) {m : Nat} (hroom : m ≤ s.rest.length) (n : Nat) :
    s.transfer (m + n) =
      ⟨s.rest.take m ++ ((s.skip m).transfer n).bytes, ((s.skip m).transfer n).source,
        ((s.skip m).transfer n).escaped⟩ := by
  have hlen : (s.skip m).rest.length = s.rest.length - m := List.length_drop
  by_cases hall : m + n ≤ s.rest.length
  · rw [transfer_of_le h hall, transfer_of_le (h.skip m) (by omega), skip_skip, List.take_add]
    rfl
  · rw [transfer_of_lt h (by omega), transfer_of_lt (h.skip m) (by omega)]
    simp only [exhausted, Source.skip, List.length_drop, List.take_append_drop, Nat.add_assoc,
      Nat.add_sub_cancel' hroom]

theorem fetch_of_le (h : s.IsQuiet) (hroom : count ≤ s.rest.length) :
    s.fetch count = (s.skip count, .ok (s.rest.take count)) := by
  rw [fetch, Condition.readiness_eq_none.mpr h.good]
  simp only [fault_transfer_of_le h hroom]
  rw [transfer_of_le h hroom]

theorem fetch_of_lt (h : s.IsQuiet) (hshort : s.rest.length < count) :
    s.fetch count = (s.exhausted, .error s.ending.fault) := by
  rw [fetch, Condition.readiness_eq_none.mpr h.good]
  simp only [fault_transfer_of_lt h hshort]
  rw [transfer_of_lt h hshort]

end Quiet

/-! ## Plain sources -/

/-- A good source without marks from which `position` octets have been read. -/
def plain (rest : Bytes) (position : Nat) : Source := { rest, position }

theorem isQuiet_plain (rest : Bytes) (position : Nat) : (plain rest position).IsQuiet := ⟨rfl, rfl⟩

theorem ofBytes_eq_plain (bytes : Bytes) : ofBytes bytes = plain bytes 0 := rfl

/-- A source all of whose `position` octets have been read, when more were asked for. -/
def dry (position : Nat) : Source :=
  { rest := [], position, condition := { eof := true, fail := true } }

theorem transfer_plain {bytes : Bytes} {count : Nat} (h : count ≤ bytes.length) (position : Nat) :
    (plain bytes position).transfer count =
      ⟨bytes.take count, plain (bytes.drop count) (position + count), false⟩ :=
  transfer_of_le (isQuiet_plain ..) h

theorem transfer_plain_short {bytes : Bytes} {count : Nat} (h : bytes.length < count)
    (position : Nat) :
    (plain bytes position).transfer count = ⟨bytes, dry (position + bytes.length), false⟩ :=
  transfer_of_lt (isQuiet_plain ..) h

theorem fetch_plain {bytes : Bytes} {count : Nat} (h : count ≤ bytes.length) (position : Nat) :
    (plain bytes position).fetch count =
      (plain (bytes.drop count) (position + count), .ok (bytes.take count)) :=
  fetch_of_le (isQuiet_plain ..) h

theorem fetch_plain_short {bytes : Bytes} {count : Nat} (h : bytes.length < count)
    (position : Nat) :
    (plain bytes position).fetch count =
      (dry (position + bytes.length), .error .prematureEof) :=
  fetch_of_lt (isQuiet_plain ..) h

/-- Looking ahead in a plain source shows its next octet. -/
theorem peek_plain (bytes : Bytes) (position : Nat) :
    (plain bytes position).peek.2 = bytes.head? := by
  cases bytes <;> rfl

end Source

/-! ## Plain sinks -/

namespace Sink

/-- A good sink without limit that has taken these octets. -/
def holding (bytes : Bytes) : Sink := { latestFirst := bytes.reverse }

theorem empty_eq_holding : empty = holding [] := rfl

@[simp] theorem written_holding (bytes : Bytes) : (holding bytes).written = bytes :=
  List.reverse_reverse bytes

theorem put_holding (held bytes : Bytes) :
    (holding held).put bytes = (holding (held ++ bytes), none) := by
  simp [put, transfer, holding, fitting, Condition.good, Condition.isGood, Condition.raise,
    Condition.verdict]

theorem putReady_holding (held bytes : Bytes) :
    (holding held).putReady bytes = (holding (held ++ bytes), none) := by
  have hready : (holding held).condition.readiness = none := rfl
  rw [putReady, hready, put_holding]

end Sink

end RemoteCalls
