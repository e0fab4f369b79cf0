import RemoteCalls.Proofs.Value.Reporting

/-!
# RemoteCalls.Proofs.Value.FullSink

Writing to a sink that has room for only so many octets.

The limit may fall anywhere: into a count, between a count and its string, between
the elements of a list or the parts of a pair, or behind the last octet of a value.
A writer that goes on part by part comes to the same as handing all octets over at
once (`filled`), since the parts behind the one that is cut are not tried.

Main statement: `full_sink_keeps_prefix`.
-/

namespace RemoteCalls

/-! ## One transfer -/

namespace Sink

/-- A good sink without marks that has taken `held` and has room for `n` more octets. -/
def bounded (held : Bytes) (n : Nat) (escapes : Bool) : Sink :=
  { latestFirst := held.reverse, room := some n, escapes }

/-- Such a sink when it has taken `held` and has refused the octets behind. -/
def spent (held : Bytes) (escapes : Bool) : Sink :=
  { latestFirst := held.reverse, room := some 0, escapes, condition := { bad := true } }

/-- What refusing octets is reported as: it is loss, unless it throws out of the transfer. -/
def overflow (escapes : Bool) : Fault := if escapes then .exceptionOccurred else .bad

/-- What comes of writing `bytes` to a sink with room for `n` octets. -/
def filled (held : Bytes) (n : Nat) (escapes : Bool) (bytes : Bytes) : Sink × Option Fault :=
  if bytes.length ≤ n then (bounded (held ++ bytes) (n - bytes.length) escapes, none)
  else (spent (held ++ bytes.take n) escapes, some (overflow escapes))

@[simp] theorem written_bounded (held : Bytes) (n : Nat) (escapes : Bool) :
    (bounded held n escapes).written = held := List.reverse_reverse held

@[simp] theorem written_spent (held : Bytes) (escapes : Bool) :
    (spent held escapes).written = held := List.reverse_reverse held

theorem condition_spent_ne_good {held : Bytes} {escapes : Bool} :
    (spent held escapes).condition ≠ .good :=
  show ({ bad := true } : Condition) ≠ .good by decide

theorem filled_of_le {bytes : Bytes} {n : Nat} (h : bytes.length ≤ n) (held : Bytes)
    (escapes : Bool) :
    filled held n escapes bytes = (bounded (held ++ bytes) (n - bytes.length) escapes, none) :=
  if_pos h

theorem filled_of_lt {bytes : Bytes} {n : Nat} (h : n < bytes.length) (held : Bytes)
    (escapes : Bool) :
    filled held n escapes bytes =
      (spent (held ++ bytes.take n) escapes, some (overflow escapes)) :=
  if_neg (Nat.not_le.mpr h)

theorem filled_nil (held : Bytes) (n : Nat) (escapes : Bool) :
    filled held n escapes [] = (bounded held n escapes, none) := by
  simp [filled]

theorem put_bounded (held : Bytes) (n : Nat) (escapes : Bool) (bytes : Bytes) :
    (bounded held n escapes).put bytes = filled held n escapes bytes := by
  by_cases hroom : bytes.length ≤ n
  · have htake : bytes.take n = bytes := List.take_of_length_le hroom
    simp [filled_of_le hroom, put, transfer, bounded, fitting, htake, Condition.good,
      Condition.isGood, Condition.raise, Condition.verdict]
  · have hcut := Nat.not_le.mp hroom
    have hlen : (bytes.take n).length = n := List.length_take_of_le (Nat.le_of_lt hcut)
    cases escapes <;>
      simp [filled_of_lt hcut, put, transfer, bounded, spent, overflow, fitting, hcut, hlen,
        Condition.good, Condition.isGood, Condition.raise, Condition.verdict]

theorem putReady_bounded (held : Bytes) (n : Nat) (escapes : Bool) (bytes : Bytes) :
    (bounded held n escapes).putReady bytes = filled held n escapes bytes := by
  have hready : (bounded held n escapes).condition.readiness = none := rfl
  rw [putReady, hready, put_bounded]

/-- Two parts, the second of which is tried only after the first one, come to the same as both at
once. -/
theorem andThen_filled {next : Sink → Sink × Option Fault} {second : Bytes} {escapes : Bool}
    (hnext : ∀ held n, next (bounded held n escapes) = filled held n escapes second)
    (held : Bytes) (n : Nat) (first : Bytes) :
    andThen (filled held n escapes first) next = filled held n escapes (first ++ second) := by
  by_cases hfirst : first.length ≤ n
  · rw [filled_of_le hfirst, andThen, hnext]
    by_cases hsecond : second.length ≤ n - first.length
    · have hboth : (first ++ second).length ≤ n := by
        rw [List.length_append]
        omega
      rw [filled_of_le hsecond, filled_of_le hboth, List.append_assoc, List.length_append,
        Nat.sub_sub]
    · have hboth : n < (first ++ second).length := by
        rw [List.length_append]
        omega
      rw [filled_of_lt (Nat.not_le.mp hsecond), filled_of_lt hboth, List.append_assoc,
        List.take_append, List.take_of_length_le hfirst]
  · have hcut := Nat.not_le.mp hfirst
    have hboth : n < (first ++ second).length := by
      rw [List.length_append]
      omega
    rw [filled_of_lt hcut, filled_of_lt hboth, andThen,
      List.take_append_of_le_length (Nat.le_of_lt hcut)]

end Sink

/-! ## One value -/

namespace Ty

open Sink

theorem writeBytes_bounded {value : Bytes} (hfits : value.length < countLimit) (held : Bytes)
    (n : Nat) (escapes : Bool) :
    writeBytes value (bounded held n escapes) = filled held n escapes (encodeBytes value) := by
  rw [writeBytes, writeSized, if_neg (Nat.not_le.mpr hfits), writeCount, putReady_bounded]
  exact andThen_filled (fun held n => put_bounded held n escapes value) held n _

theorem writeEach_bounded {values : List Bytes}
    (hfits : ∀ value ∈ values, value.length < countLimit) (held : Bytes) (n : Nat)
    (escapes : Bool) :
    writeEach values (bounded held n escapes) =
      filled held n escapes (values.flatMap encodeBytes) := by
  induction values generalizing held n with
  | nil => rw [writeEach, List.flatMap_nil, filled_nil]
  | cons value values ih =>
      obtain ⟨hvalue, hvalues⟩ := List.forall_mem_cons.mp hfits
      rw [writeEach, writeBytes_bounded hvalue, List.flatMap_cons]
      exact andThen_filled (ih hvalues) held n _

/-- A value is written as far as there is room for its octets. -/
theorem write_bounded (t : Ty) {v : t.Val} (hfits : t.Fits v) (held : Bytes) (n : Nat)
    (escapes : Bool) :
    t.write v (bounded held n escapes) = filled held n escapes (t.encode v) := by
  induction t generalizing held n with
  | bool => exact putReady_bounded ..
  | unsigned w => exact putReady_bounded ..
  | signed w => exact putReady_bounded ..
  | bytes => exact writeBytes_bounded hfits held n escapes
  | bytesList =>
      rw [write, if_neg (Nat.not_le.mpr hfits.1), writeCount, putReady_bounded]
      exact andThen_filled (fun held n => writeEach_bounded hfits.2 held n escapes) held n _
  | pair a b iha ihb =>
      rw [write, iha hfits.1]
      exact andThen_filled (ihb hfits.2) held n _

end Ty

/-! ## Values one after another -/

namespace TypedValue

open Sink

/-- Write values in order, each of them whatever became of those before it: the sink after them, and
what each of them reports. -/
def writeEvery : List TypedValue → Sink → Sink × List (Option Fault)
  | [], s => (s, [])
  | v :: vs, s =>
      let first := v.ty.write v.val s
      let later := writeEvery vs first.1
      (later.1, first.2 :: later.2)

/-- What is reported of a value that stands between these two places of all octets, where there is
room for `n`. -/
def report (n : Nat) (escapes : Bool) (start stop : Nat) : Option Fault :=
  if stop ≤ n then none else if start ≤ n then some (overflow escapes) else some .streamNotReady

theorem report_eq_none {n : Nat} {escapes : Bool} {start stop : Nat} :
    report n escapes start stop = none ↔ stop ≤ n := by
  unfold report
  split
  case isTrue hstop => simp [hstop]
  case isFalse hstop => split <;> simp [hstop]

theorem length_encodeAll_take_le (values : List TypedValue) (i : Nat) :
    (encodeAll (values.take i)).length ≤ (encodeAll (values.take (i + 1))).length := by
  rw [List.take_add_one, encodeAll, encodeAll, List.flatMap_append, List.length_append]
  exact Nat.le_add_right ..

/-- On a sink that is not good everything is refused. -/
theorem writeEvery_of_ne {s : Sink} (hnot : s.condition ≠ .good) {values : List TypedValue}
    (hfits : ∀ v ∈ values, v.Fits) :
    writeEvery values s = (s, values.map fun _ => some .streamNotReady) := by
  induction values with
  | nil => rfl
  | cons v values ih =>
      obtain ⟨hv, hvalues⟩ := List.forall_mem_cons.mp hfits
      have hrefused := (v.ty.honest_write v.val s).refused hnot (Ty.leads_of_fits hv)
      simp only [writeEvery, hrefused, ih hvalues, List.map_cons]

/-- The sink keeps what fits of all octets, wherever one value ends and the next one begins. -/
theorem written_writeEvery {values : List TypedValue} (hfits : ∀ v ∈ values, v.Fits)
    (held : Bytes) (n : Nat) (escapes : Bool) :
    (writeEvery values (bounded held n escapes)).1.written =
      held ++ (encodeAll values).take n := by
  induction values generalizing held n with
  | nil => simp [writeEvery, encodeAll]
  | cons v values ih =>
      obtain ⟨hv, hvalues⟩ := List.forall_mem_cons.mp hfits
      simp only [writeEvery, Ty.write_bounded v.ty hv, encodeAll_cons]
      by_cases hroom : (v.ty.encode v.val).length ≤ n
      · rw [filled_of_le hroom, ih hvalues, List.append_assoc, List.take_append,
          List.take_of_length_le hroom]
      · have hcut := Nat.not_le.mp hroom
        rw [filled_of_lt hcut, writeEvery_of_ne condition_spent_ne_good hvalues,
          written_spent, List.take_append_of_le_length (Nat.le_of_lt hcut)]

/-- Every value reports where it stands to the limit. -/
theorem getElem?_writeEvery {values : List TypedValue} (hfits : ∀ v ∈ values, v.Fits)
    (held : Bytes) (n : Nat) (escapes : Bool) {i : Nat} (hi : i < values.length) :
    (writeEvery values (bounded held n escapes)).2[i]? =
      some (report n escapes (encodeAll (values.take i)).length
        (encodeAll (values.take (i + 1))).length) := by
  induction values generalizing held n i with
  | nil => contradiction
  | cons v values ih =>
      obtain ⟨hv, hvalues⟩ := List.forall_mem_cons.mp hfits
      simp only [writeEvery, Ty.write_bounded v.ty hv]
      cases i with
      | zero =>
          by_cases hroom : (v.ty.encode v.val).length ≤ n
          · simp [filled_of_le hroom, report, encodeAll, hroom]
          · simp [filled_of_lt (Nat.not_le.mp hroom), report, encodeAll, hroom]
      | succ i =>
          have hi' : i < values.length := Nat.lt_of_succ_lt_succ hi
          simp only [List.getElem?_cons_succ, List.take_succ_cons, encodeAll_cons,
            List.length_append]
          by_cases hroom : (v.ty.encode v.val).length ≤ n
          · rw [filled_of_le hroom, ih hvalues _ _ hi']
            simp only [report, Nat.le_sub_iff_add_le' hroom]
          · have hcut := Nat.not_le.mp hroom
            rw [filled_of_lt hcut, writeEvery_of_ne condition_spent_ne_good hvalues,
              List.getElem?_map, List.getElem?_eq_getElem hi', report, if_neg (by omega),
              if_neg (by omega), Option.map_some]

/-- Whatever values are written in order to a good sink that takes `n` octets more and then refuses
or throws: it keeps just the first octets of them all, as many as there are up to `n`.  A value is
reported as written just when its last octet fits; the first one that is not is reported as loss, or
as an exception if that left the transfer; and every one behind that is refused. -/
theorem full_sink_keeps_prefix {items : List TypedValue} (hfits : ∀ v ∈ items, v.Fits)
    (held : Bytes) (n : Nat) (escapes : Bool) :
    let all := encodeAll items
    let result := writeEvery items (bounded held n escapes)
    result.1.written = held ++ all.take (min n all.length) ∧
    ∀ i < items.length,
      let start := (encodeAll (items.take i)).length
      let stop := (encodeAll (items.take (i + 1))).length
      (result.2[i]? = some none ↔ stop ≤ n) ∧
      (start ≤ n → n < stop →
        result.2[i]? = some (some (if escapes then .exceptionOccurred else .bad))) ∧
      (n < start → result.2[i]? = some (some .streamNotReady)) := by
  intro all result
  refine ⟨?_, ?_⟩
  · rw [written_writeEvery hfits, ← List.take_eq_take_min]
  · intro i hi start stop
    have hreport : result.2[i]? = some (report n escapes start stop) :=
      getElem?_writeEvery hfits held n escapes hi
    have hle : start ≤ stop := length_encodeAll_take_le items i
    rw [hreport]
    refine ⟨?_, ?_, ?_⟩
    · rw [Option.some_inj, report_eq_none]
    · intro hstart hstop
      rw [report, if_neg (Nat.not_le.mpr hstop), if_pos hstart, overflow]
    · intro hstart
      rw [report, if_neg (by omega), if_neg (Nat.not_le.mpr hstart)]

/-- Ten octets fit: a number, an empty string in a list, and one octet of the count of the string
behind it.  The header comes too late. -/
theorem full_sink_keeps_prefix_cut_list :
    let items : List TypedValue :=
      [⟨.unsigned .w8, (7 : BitVec 8)⟩, ⟨.bytesList, [[], [1, 2]]⟩, ofHeader {}]
    let result := writeEvery items (bounded [] 10 true)
    result.1.written = [7, 2, 0, 0, 0, 0, 0, 0, 0, 2] ∧
    result.2[0]? = some none ∧ result.2[1]? = some (some .exceptionOccurred) ∧
    result.2[2]? = some (some .streamNotReady) := by
  intro items result
  have hfits : ∀ v ∈ items, v.Fits := by
    simp [items, Fits, ofHeader, Ty.Fits, Header.toVal, Ty.countLimit]
  obtain ⟨hwritten, hreports⟩ := full_sink_keeps_prefix hfits [] 10 true
  exact ⟨hwritten, (hreports 0 (by decide)).1.mpr (by decide),
    (hreports 1 (by decide)).2.1 (by decide) (by decide),
    (hreports 2 (by decide)).2.2 (by decide)⟩

end TypedValue

end RemoteCalls
