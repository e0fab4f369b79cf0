import RemoteCalls.Proofs.Value.Sequence

/-!
# RemoteCalls.Proofs.Value.Truncation

Reading a value whose octets end too early, wherever that is.  The read takes
all that came and reports the early end, and the variable keeps what it can:

1. an integer and a boolean come whole or not at all;
2. a string keeps its octets, with zeros up to the end of the block that was
   being read, unless its count did not come;
3. a list keeps its complete strings, unless its count did not come;
4. a pair keeps its first value, and then as much of its second.

Main statement: `read_truncated`.
-/

namespace RemoteCalls

namespace Ty

open Source

/-! ## What is kept -/

/-- What a string variable that held `old` holds when `n` octets of `value` came. -/
def keptBytes (value old : Bytes) (n : Nat) : Bytes :=
  if n < 4 then old else padded (value.take (n - 4)) value.length

/-- The strings of a list whose encodings came complete, if `n` octets came. -/
def complete : List Bytes → Nat → List Bytes
  | [], _ => []
  | value :: values, n =>
      if n < (encodeBytes value).length then []
      else value :: complete values (n - (encodeBytes value).length)

/-- A string has come complete if its octets and those in front of it came. -/
theorem getElem?_complete (values : List Bytes) (n i : Nat) :
    (complete values n)[i]? =
      if ((values.take (i + 1)).flatMap encodeBytes).length ≤ n then values[i]? else none := by
  induction values generalizing n i with
  | nil => simp [complete]
  | cons value values ih =>
      rw [complete, List.take_succ_cons, List.flatMap_cons, List.length_append]
      split
      case isTrue hcut =>
        rw [if_neg (by omega), List.getElem?_nil]
      case isFalse hroom =>
        cases i with
        | zero => simp [Nat.not_lt.mp hroom]
        | succ i =>
            have hsplit : ((values.take (i + 1)).flatMap encodeBytes).length ≤
                n - (encodeBytes value).length ↔ (encodeBytes value).length +
                  ((values.take (i + 1)).flatMap encodeBytes).length ≤ n := by
              omega
            rw [List.getElem?_cons_succ, List.getElem?_cons_succ, ih]
            simp only [hsplit]

/-- What a variable that held `old` holds when the first `n` octets of a value came, and not all. -/
def kept : (t : Ty) → t.Val → t.Val → Nat → t.Val
  | bool, _, old, _ => old
  | unsigned _, _, old, _ => old
  | signed _, _, old, _ => old
  | bytes, v, old, n => keptBytes v old n
  | bytesList, v, old, n => if n < 4 then old else complete v (n - 4)
  | pair a b, v, old, n =>
      if n < (a.encode v.1).length then (a.kept v.1 old.1 n, old.2)
      else (v.1, b.kept v.2 old.2 (n - (a.encode v.1).length))

/-! ## Strings and lists -/

/-- The front of a string behind its count. -/
theorem take_encodeCount {k n : Nat} (h : 4 ≤ n) (rest : Bytes) :
    (encodeCount k ++ rest).take n = encodeCount k ++ rest.take (n - 4) := by
  have hfour : (encodeCount k).length = 4 := Bytes.length_ofNatLE 4 k
  rw [List.take_append, hfour, List.take_of_length_le (hfour ▸ h)]

theorem readBytes_truncated {value : Bytes} (hfits : value.length < countLimit) {n : Nat}
    (hcut : n < (encodeBytes value).length) (old : Bytes) (position : Nat) :
    readBytes old (plain ((encodeBytes value).take n) position) =
      ⟨keptBytes value old n, dry (position + n), some .prematureEof⟩ := by
  have hlen : ((encodeBytes value).take n).length = n := List.length_take_of_le (Nat.le_of_lt hcut)
  have hfour : (encodeCount value.length).length = 4 := Bytes.length_ofNatLE 4 _
  by_cases hcount : n < 4
  · rw [readBytes, readCount_plain_short (by omega), hlen, keptBytes, if_pos hcount]
  · have hfront : (encodeBytes value).take n = encodeCount value.length ++ value.take (n - 4) :=
      take_encodeCount (Nat.not_lt.mp hcount) value
    have htotal : (encodeBytes value).length = 4 + value.length := by
      rw [encodeBytes, List.length_append, hfour]
    have hdrop : (encodeCount value.length ++ value.take (n - 4)).drop 4 = value.take (n - 4) := by
      rw [← hfour, List.drop_left]
    rw [hfront] at hlen ⊢
    rw [readBytes_plain_short (by omega) (count_encodeCount hfits _) (by omega), hlen, hdrop,
      keptBytes, if_neg hcount]

theorem readEach_truncated {values : List Bytes}
    (hfits : ∀ value ∈ values, value.length < countLimit) {n : Nat}
    (hcut : n < (values.flatMap encodeBytes).length) (before : List Bytes) (position : Nat) :
    readEach values.length before (plain ((values.flatMap encodeBytes).take n) position) =
      ⟨before.reverse ++ complete values n, dry (position + n), some .prematureEof⟩ := by
  induction values generalizing n before position with
  | nil => simp at hcut
  | cons value values ih =>
      obtain ⟨hvalue, hvalues⟩ := List.forall_mem_cons.mp hfits
      rw [List.flatMap_cons, List.length_append] at hcut
      rw [List.flatMap_cons, List.length_cons, readEach, complete]
      by_cases hfirst : n < (encodeBytes value).length
      · rw [List.take_append_of_le_length (Nat.le_of_lt hfirst),
          readBytes_truncated hvalue hfirst, if_pos hfirst, List.append_nil]
      · have hlen := Nat.not_lt.mp hfirst
        rw [List.take_append, List.take_of_length_le hlen, readBytes_encode hvalue, if_neg hfirst]
        simp only [ih hvalues (show n - (encodeBytes value).length < _ by omega),
          List.reverse_cons, List.append_assoc, List.singleton_append]
        rw [Nat.add_assoc, Nat.add_sub_cancel' hlen]

/-! ## All types -/

theorem readInteger_truncated {w : Width} {v : BitVec w.bits} {n : Nat}
    (hcut : n < (encodeInteger w v).length) (old : BitVec w.bits) (position : Nat) :
    readInteger w old (plain ((encodeInteger w v).take n) position) =
      ⟨old, dry (position + n), some .prematureEof⟩ := by
  have hwidth : (encodeInteger w v).length = w.octets := Bytes.length_ofNatLE ..
  have hlen : ((encodeInteger w v).take n).length = n :=
    List.length_take_of_le (Nat.le_of_lt hcut)
  rw [readInteger, fetch_plain_short (by omega), hlen]

/-- A value whose octets end too early is read as far as they go. -/
theorem read_take_encode (t : Ty) {v : t.Val} (hfits : t.Fits v) {n : Nat}
    (hcut : n < (t.encode v).length) (old : t.Val) (position : Nat) :
    t.read old (plain ((t.encode v).take n) position) =
      ⟨t.kept v old n, dry (position + n), some .prematureEof⟩ := by
  induction t generalizing n position with
  | bool =>
      obtain rfl : n = 0 := Nat.lt_one_iff.mp hcut
      rfl
  | unsigned w => exact readInteger_truncated hcut old position
  | signed w => exact readInteger_truncated hcut old position
  | bytes => exact readBytes_truncated hfits hcut old position
  | bytesList =>
      have hlen : ((encode bytesList v).take n).length = n :=
        List.length_take_of_le (Nat.le_of_lt hcut)
      have hfour : (encodeCount (List.length v)).length = 4 := Bytes.length_ofNatLE 4 _
      rw [encode, List.length_append, hfour] at hcut
      rw [read, readBytesList, kept]
      by_cases hcount : n < 4
      · rw [readCount_plain_short (by omega), hlen, if_pos hcount]
      · have hfront : (encode bytesList v).take n =
            encodeCount (List.length v) ++ (List.flatMap encodeBytes v).take (n - 4) :=
          take_encodeCount (Nat.not_lt.mp hcount) _
        have hrest : position + 4 + (n - 4) = position + n := by omega
        rw [hfront, readCount_plain (by simp [hfour]), if_neg hcount]
        simp only [count_encodeCount hfits.1]
        rw [← hfour, List.drop_left, hfour, readEach_truncated hfits.2 (by omega), hrest]
        rfl
  | pair a b iha ihb =>
      rw [encode, List.length_append] at hcut
      rw [encode, read, kept]
      by_cases hfirst : n < (a.encode v.1).length
      · rw [List.take_append_of_le_length (Nat.le_of_lt hfirst), iha hfits.1 hfirst,
          if_pos hfirst]
      · have hlen := Nat.not_lt.mp hfirst
        rw [List.take_append, List.take_of_length_le hlen, read_encode a hfits.1, if_neg hfirst]
        simp only [ihb hfits.2 (show n - (a.encode v.1).length < _ by omega), Reading.map]
        rw [Nat.add_assoc, Nat.add_sub_cancel' hlen]

end Ty

/-! ## Headers and operands -/

open Source

/-- What a header variable that held `old` holds when `n` octets of a header came, and not all. -/
def Header.kept (h old : Header) (n : Nat) : Header :=
  let method := (Ty.encodeBytes h.service).length
  let seq := method + (Ty.encodeBytes h.method).length
  let error := seq + 8
  if n < method then { old with service := Ty.keptBytes h.service old.service n }
  else if n < seq then
    { old with service := h.service, method := Ty.keptBytes h.method old.method (n - method) }
  else if n < error then { old with service := h.service, method := h.method }
  else { h with error := Ty.keptBytes h.error old.error (n - error) }

/-- The fields of a header are kept as those of its value are. -/
theorem Header.ofVal_kept (h old : Header) (n : Nat) :
    ofVal (layout.kept h.toVal old.toVal n) = h.kept old n := by
  have hseq : (Ty.encodeInteger .w64 h.seq.toBitVec).length = 8 := Bytes.length_ofNatLE ..
  simp only [Ty.kept, Ty.encode, toVal, kept, hseq]
  by_cases hmethod : n < (Ty.encodeBytes h.service).length
  · simp only [if_pos hmethod]
    rfl
  · simp only [if_neg hmethod, Nat.sub_lt_iff_lt_add' (Nat.not_lt.mp hmethod)]
    by_cases hnumber : n < (Ty.encodeBytes h.service).length + (Ty.encodeBytes h.method).length
    · simp only [if_pos hnumber]
      rfl
    · simp only [if_neg hnumber, Nat.sub_sub, Nat.sub_lt_iff_lt_add' (Nat.not_lt.mp hnumber)]
      split <;> rfl

/-- What operands that were `old` are when `n` octets of others came, and not all. -/
def Arithmetic.Operands.kept (x old : Operands) (n : Nat) : Operands :=
  if n < 4 then old else { old with a := x.a }

theorem Arithmetic.Operands.ofVal_kept (x old : Operands) (n : Nat) :
    ofVal (layout.kept x.toVal old.toVal n) = x.kept old n := by
  have hfirst : (Ty.encodeInteger .w32 x.a.toBitVec).length = 4 := Bytes.length_ofNatLE ..
  simp only [Ty.kept, Ty.encode, toVal, kept, hfirst]
  split <;> rfl

/-- Whatever value a source was to give, and wherever its octets end too early: the read takes all
of them, it reports the early end, and the variable keeps just what has come.  Headers and operands
keep their fields in order: those that came, then as much of the field that was cut, then the old
ones. -/
theorem read_truncated :
    (∀ (t : Ty) (v old : t.Val) (n position : Nat), t.Fits v → n < (t.encode v).length →
      t.read old (plain ((t.encode v).take n) position) =
        ⟨t.kept v old n, dry (position + n), some .prematureEof⟩) ∧
    (∀ (h old : Header) (n position : Nat), Header.layout.Fits h.toVal → n < h.encode.length →
      old.read (plain (h.encode.take n) position) =
        ⟨h.kept old n, dry (position + n), some .prematureEof⟩) ∧
    ∀ (x old : Arithmetic.Operands) (n position : Nat), n < 8 →
      (Arithmetic.Operands.layout.read old.toVal
        (plain ((Arithmetic.Operands.layout.encode x.toVal).take n) position)).map .ofVal =
          ⟨x.kept old n, dry (position + n), some .prematureEof⟩ := by
  refine ⟨?_, ?_, ?_⟩
  · intro t v old n position hfits hcut
    exact Ty.read_take_encode t hfits hcut old position
  · intro h old n position hfits hcut
    rw [Header.read, Header.encode, Ty.read_take_encode _ hfits hcut, Reading.map,
      Header.ofVal_kept]
  · intro x old n position hcut
    have hlen : (Arithmetic.Operands.layout.encode x.toVal).length = 8 := rfl
    have hfits : Arithmetic.Operands.layout.Fits x.toVal := ⟨trivial, trivial⟩
    rw [Ty.read_take_encode _ hfits (hlen.symm ▸ hcut), Reading.map,
      Arithmetic.Operands.ofVal_kept]

/-- A list that ends in its second string, a header that ends in its method, and operands of which
the second one does not come whole. -/
theorem read_truncated_list_header_operands :
    Ty.read .bytesList [[9]] (plain [2, 0, 0, 0, 1, 0, 0, 0, 7, 2, 0, 0, 0, 8] 0) =
      ⟨[[7]], dry 14, some .prematureEof⟩ ∧
    Header.read { service := [1], method := [2], seq := 3, error := [4] }
        (plain [1, 0, 0, 0, 65, 3, 0, 0, 0, 66] 0) =
      ⟨{ service := [65], method := [66, 0, 0], seq := 3, error := [4] }, dry 10,
        some .prematureEof⟩ ∧
    (Arithmetic.Operands.layout.read (Arithmetic.Operands.toVal ⟨1, 2⟩)
        (plain [254, 255, 255, 255, 9] 0)).map Arithmetic.Operands.ofVal =
      ⟨⟨-2, 2⟩, dry 5, some .prematureEof⟩ := by
  obtain ⟨hvalues, hheaders, hoperands⟩ := read_truncated
  exact ⟨
    hvalues .bytesList [[7], [8, 8]] [[9]] 14 0 (by simp [Ty.Fits, Ty.countLimit]) (by decide),
    hheaders { service := [65], method := [66, 67, 68] }
      { service := [1], method := [2], seq := 3, error := [4] } 10 0
      (by simp [Ty.Fits, Ty.countLimit, Header.toVal]) (by decide),
    hoperands ⟨-2, 9⟩ ⟨1, 2⟩ 5 0 (by decide)⟩

end RemoteCalls
