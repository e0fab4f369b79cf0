import RemoteCalls.Bytes.Lemmas
import RemoteCalls.Proofs.Stream.Plain
import RemoteCalls.Value.Read
import RemoteCalls.Value.Write

/-!
# RemoteCalls.Proofs.Value.RoundTrip

Writing a value to a plain sink and reading it back from a plain source.

Main statements: `write_holding`, what a value is written as; `read_encode`, these
octets are read as the value again; `encode_of_read`, no other octets are read as
that value, unless it has a boolean in it.
-/

namespace RemoteCalls

namespace Ty

open Source Sink

/-! ## Counts and strings -/

theorem readCount_plain {bytes : Bytes} (h : 4 ≤ bytes.length) (position : Nat) :
    readCount (plain bytes position) =
      (plain (bytes.drop 4) (position + 4), .ok (.ofNat (Bytes.toNatLE (bytes.take 4)))) := by
  rw [readCount, fetch_plain h]

theorem readCount_plain_short {bytes : Bytes} (h : bytes.length < 4) (position : Nat) :
    readCount (plain bytes position) =
      (dry (position + bytes.length), .error .prematureEof) := by
  rw [readCount, fetch_plain_short h]

/-- Four octets hold a count. -/
theorem toNat_count {bytes : Bytes} (h : 4 ≤ bytes.length) :
    (UInt32.ofNat (Bytes.toNatLE (bytes.take 4))).toNat = Bytes.toNatLE (bytes.take 4) := by
  have hlt := Bytes.toNatLE_lt (bytes.take 4)
  rw [List.length_take_of_le h] at hlt
  simpa using Nat.mod_eq_of_lt hlt

/-- A count is read back. -/
theorem count_encodeCount {n : Nat} (h : n < countLimit) (rest : Bytes) :
    (UInt32.ofNat (Bytes.toNatLE ((encodeCount n ++ rest).take 4))).toNat = n := by
  have hlen : (encodeCount n).length = 4 := Bytes.length_ofNatLE 4 n
  rw [toNat_count (by simp [hlen]), ← hlen, List.take_left]
  exact Bytes.toNatLE_ofNatLE_of_lt (by simpa [countLimit] using h)

/-- No octets but its own are read as a count. -/
theorem encodeCount_of_read {bytes : Bytes} (h : 4 ≤ bytes.length) :
    encodeCount (UInt32.ofNat (Bytes.toNatLE (bytes.take 4))).toNat = bytes.take 4 := by
  have hlen : (bytes.take 4).length = 4 := List.length_take_of_le h
  have hback := Bytes.ofNatLE_toNatLE (bytes.take 4)
  rw [hlen] at hback
  rw [toNat_count h, encodeCount, hback]

/-- A block that has arrived whole is what arrived. -/
theorem block_of_length {n : UInt32} {bytes : Bytes} (h : bytes.length = n.toNat) :
    block n bytes = bytes := by
  simp [block, h]

/-- What is left of a string after its next block. -/
theorem toNat_left {size pos : UInt32} (h : pos < size) :
    let n := nextBlock size pos
    0 < n.toNat ∧ pos + n ≤ size ∧
      size.toNat - (pos + n).toNat = size.toNat - pos.toNat - n.toNat ∧
      n.toNat ≤ size.toNat - pos.toNat := by
  have hadd := toNat_add_nextBlock h
  have hn := toNat_nextBlock h
  have hlt : pos.toNat < size.toNat := UInt32.lt_iff_toNat_lt.mp h
  refine ⟨by omega, UInt32.le_iff_toNat_le.mpr (by omega), by omega, by omega⟩

/-- Where the block ends into which the octet behind the first `n` of `size` octets falls. -/
def blockEnd (n size : Nat) : Nat := min (n / 65536 * 65536 + 65536) size

/-- What a string of `size` octets holds of which only `bytes` came: zeros stand behind them, up to
the end of the block that was being read. -/
def padded (bytes : Bytes) (size : Nat) : Bytes :=
  bytes ++ List.replicate (blockEnd bytes.length size - bytes.length) 0

/-- The first block. -/
theorem blockEnd_of_lt {n size : Nat} (h : n < 65536) : blockEnd n size = min 65536 size := by
  rw [blockEnd, Nat.div_eq_of_lt h, Nat.zero_mul, Nat.zero_add]

/-- Nothing stands behind a string that came whole. -/
theorem padded_of_length {bytes : Bytes} {size : Nat} (h : bytes.length = size) :
    padded bytes size = bytes := by
  have hend : blockEnd bytes.length size - bytes.length = 0 := by
    unfold blockEnd
    omega
  rw [padded, hend, List.replicate_zero, List.append_nil]

/-- Blocks behind the first one end where they end in what is left. -/
theorem padded_append {front bytes : Bytes} {size : Nat} (hfront : front.length = min 65536 size)
    (hbytes : bytes.length ≤ size - front.length) :
    padded (front ++ bytes) size = front ++ padded bytes (size - front.length) := by
  have hend : blockEnd (front.length + bytes.length) size - (front.length + bytes.length) =
      blockEnd bytes.length (size - front.length) - bytes.length := by
    unfold blockEnd
    omega
  rw [padded, padded, List.length_append, hend, List.append_assoc]

/-- Reading block by block is reading at once, up to the zeros behind a string that is cut short. -/
theorem readBlocks_of_quiet {size pos : UInt32} (hpos : pos ≤ size) {s : Source} (h : s.IsQuiet)
    {left : Nat} (hleft : size.toNat - pos.toNat = left) :
    readBlocks size pos s =
      ⟨padded (s.transfer left).bytes left, (s.transfer left).source, (s.transfer left).fault⟩ := by
  induction left using Nat.strongRecOn generalizing pos s with
  | _ left ih =>
      rw [readBlocks]
      split
      case isTrue hlt =>
        have hblock : (nextBlock size pos).toNat = min 65536 left := hleft ▸ toNat_nextBlock hlt
        obtain ⟨hn, hnext, hafter, hle⟩ := toNat_left hlt
        generalize nextBlock size pos = n at *
        by_cases hroom : n.toNat ≤ s.rest.length
        · -- the block arrives, and the others are read from what is left of the source
          obtain ⟨more, rfl⟩ := Nat.exists_eq_add_of_le (hleft ▸ hle)
          have hlen : (s.rest.take n.toNat).length = n.toNat := List.length_take_of_le hroom
          have hmore : n.toNat + more - (s.rest.take n.toNat).length = more := by omega
          have hsmall : ((s.skip n.toNat).transfer more).bytes.length ≤
              n.toNat + more - (s.rest.take n.toNat).length := by
            rw [hmore, length_bytes_transfer (h.skip _)]
            exact Nat.min_le_left ..
          have hrest := ih more (by omega) hnext (h.skip n.toNat) (by omega)
          rw [transfer_add h hroom, padded_append (hlen.trans hblock) hsmall, hmore]
          simp only [transfer_of_le h hroom, Bool.false_eq_true, if_false, h.isFailed_skip, hrest,
            block_of_length hlen, Reading.map]
          rfl
        · -- the source ends inside this block
          have hshort := Nat.not_le.mp hroom
          have hend : n.toNat = blockEnd s.rest.length left := by
            rw [blockEnd_of_lt (by omega), hblock]
          rw [transfer_of_lt h (Nat.lt_of_lt_of_le hshort (hleft ▸ hle)), padded, ← hend]
          simp only [transfer_of_lt h hshort, block, isFailed_exhausted, if_true, Taken.fault]
          split <;> rfl
      case isFalse hge =>
        have hle : size.toNat ≤ pos.toNat :=
          Nat.not_lt.mp (mt UInt32.lt_iff_toNat_lt.mpr hge)
        obtain rfl : left = 0 := by omega
        rw [transfer_of_le h (Nat.zero_le _)]
        rfl

theorem readBlocks_plain {size pos : UInt32} (hpos : pos ≤ size) {bytes : Bytes}
    {position left : Nat} (hleft : size.toNat - pos.toNat = left) (h : left ≤ bytes.length) :
    readBlocks size pos (plain bytes position) =
      ⟨bytes.take left, plain (bytes.drop left) (position + left), none⟩ := by
  rw [readBlocks_of_quiet hpos (isQuiet_plain ..) hleft,
    fault_transfer_of_le (isQuiet_plain ..) h, transfer_plain h,
    padded_of_length (List.length_take_of_le h)]

/-- A string that is cut short is read as far as it came. -/
theorem readBlocks_plain_short {size pos : UInt32} (hpos : pos ≤ size) {bytes : Bytes}
    {position left : Nat} (hleft : size.toNat - pos.toNat = left) (h : bytes.length < left) :
    readBlocks size pos (plain bytes position) =
      ⟨padded bytes left, dry (position + bytes.length), some .prematureEof⟩ := by
  rw [readBlocks_of_quiet hpos (isQuiet_plain ..) hleft,
    fault_transfer_of_lt (isQuiet_plain ..) h, transfer_plain_short h]
  rfl

/-- A string is read as what its count announces. -/
theorem readBytes_plain {bytes : Bytes} (hcount : 4 ≤ bytes.length) {n : Nat}
    (hn : (UInt32.ofNat (Bytes.toNatLE (bytes.take 4))).toNat = n) (h : 4 + n ≤ bytes.length)
    (old : Bytes) (position : Nat) :
    readBytes old (plain bytes position) =
      ⟨(bytes.drop 4).take n, plain ((bytes.drop 4).drop n) (position + 4 + n), none⟩ := by
  have hroom : n ≤ (bytes.drop 4).length := by
    rw [List.length_drop]
    omega
  simp only [readBytes, readCount_plain hcount]
  exact readBlocks_plain UInt32.zero_le (by simpa using hn) hroom

/-- A string is read as far as it came if less came than its count announces. -/
theorem readBytes_plain_short {bytes : Bytes} (hcount : 4 ≤ bytes.length) {n : Nat}
    (hn : (UInt32.ofNat (Bytes.toNatLE (bytes.take 4))).toNat = n) (h : bytes.length < 4 + n)
    (old : Bytes) (position : Nat) :
    readBytes old (plain bytes position) =
      ⟨padded (bytes.drop 4) n, dry (position + bytes.length), some .prematureEof⟩ := by
  have hlen : (bytes.drop 4).length = bytes.length - 4 := List.length_drop
  have hend : position + 4 + (bytes.drop 4).length = position + bytes.length := by omega
  have hread : readBlocks (UInt32.ofNat (Bytes.toNatLE (bytes.take 4))) 0
      (plain (bytes.drop 4) (position + 4)) = _ :=
    readBlocks_plain_short UInt32.zero_le (by simpa using hn) (by omega)
  rw [hend] at hread
  simp only [readBytes, readCount_plain hcount]
  exact hread

theorem readBytes_encode {value : Bytes} (h : value.length < countLimit) (old rest : Bytes)
    (position : Nat) :
    readBytes old (plain (encodeBytes value ++ rest) position) =
      ⟨value, plain rest (position + (encodeBytes value).length), none⟩ := by
  have hfour : (encodeCount value.length).length = 4 := Bytes.length_ofNatLE 4 _
  have hbytes : encodeBytes value ++ rest = encodeCount value.length ++ (value ++ rest) := by
    rw [encodeBytes, List.append_assoc]
  have hlen : (encodeBytes value).length = 4 + value.length := by
    rw [encodeBytes, List.length_append, hfour]
  have hdrop : (encodeCount value.length ++ (value ++ rest)).drop 4 = value ++ rest := by
    rw [← hfour, List.drop_left]
  rw [hbytes, readBytes_plain (by simp [hfour]) (count_encodeCount h _) (by simp [hfour]), hdrop,
    List.take_left, List.drop_left, hlen, Nat.add_assoc]

/-- A read string has been written as the octets that were read. -/
theorem encodeBytes_of_readBytes {bytes value old : Bytes} {position : Nat} {s : Source}
    (h : readBytes old (plain bytes position) = ⟨value, s, none⟩) :
    ∃ rest, bytes = encodeBytes value ++ rest ∧
      s = plain rest (position + (encodeBytes value).length) ∧ value.length < countLimit := by
  by_cases hcount : 4 ≤ bytes.length
  · generalize hn : (UInt32.ofNat (Bytes.toNatLE (bytes.take 4))).toNat = n
    by_cases hroom : 4 + n ≤ bytes.length
    · rw [readBytes_plain hcount hn hroom] at h
      obtain ⟨rfl, rfl, -⟩ := Reading.mk.inj h
      have hlen : ((bytes.drop 4).take n).length = n := by
        rw [List.length_take, List.length_drop]
        omega
      have hencode : encodeBytes ((bytes.drop 4).take n) =
          bytes.take 4 ++ (bytes.drop 4).take n := by
        rw [encodeBytes, hlen, ← hn, encodeCount_of_read hcount]
      refine ⟨(bytes.drop 4).drop n, ?_, ?_, ?_⟩
      · rw [hencode, List.append_assoc, List.take_append_drop, List.take_append_drop]
      · rw [hencode, List.length_append, hlen, List.length_take_of_le hcount, Nat.add_assoc]
      · rw [hlen, ← hn]
        exact UInt32.toNat_lt _
    · rw [readBytes_plain_short hcount hn (Nat.not_le.mp hroom)] at h
      simp at h
  · rw [readBytes, readCount_plain_short (Nat.not_le.mp hcount)] at h
    simp at h

/-- A string is written if its count can be. -/
theorem writeBytes_holding {value : Bytes} (h : value.length < countLimit) (held : Bytes) :
    writeBytes value (holding held) = (holding (held ++ encodeBytes value), none) := by
  rw [writeBytes, writeSized, if_neg (Nat.not_le.mpr h), writeCount, putReady_holding]
  simp only [andThen, put_holding, encodeBytes, List.append_assoc]

/-! ## Lists -/

theorem writeEach_holding {values : List Bytes} (h : ∀ value ∈ values, value.length < countLimit)
    (held : Bytes) :
    writeEach values (holding held) = (holding (held ++ values.flatMap encodeBytes), none) := by
  induction values generalizing held with
  | nil => simp [writeEach]
  | cons value values ih =>
      obtain ⟨hvalue, hvalues⟩ := List.forall_mem_cons.mp h
      rw [writeEach, writeBytes_holding hvalue]
      simp only [andThen, ih hvalues, List.flatMap_cons, List.append_assoc]

theorem fits_of_writeBytes {value : Bytes} {s : Sink} (h : (writeBytes value s).2 = none) :
    value.length < countLimit := by
  refine Nat.not_le.mp fun hcount => ?_
  rw [writeBytes, writeSized, if_pos hcount] at h
  contradiction

theorem fits_of_writeEach {values : List Bytes} {s : Sink} (h : (writeEach values s).2 = none) :
    ∀ value ∈ values, value.length < countLimit := by
  induction values generalizing s with
  | nil => simp
  | cons value values ih =>
      obtain ⟨hvalue, hvalues⟩ := snd_andThen_eq_none.mp h
      exact List.forall_mem_cons.mpr ⟨fits_of_writeBytes hvalue, ih hvalues⟩

theorem readEach_encode {values : List Bytes} (h : ∀ value ∈ values, value.length < countLimit)
    (before : List Bytes) (rest : Bytes) (position : Nat) :
    readEach values.length before (plain (values.flatMap encodeBytes ++ rest) position) =
      ⟨before.reverse ++ values,
        plain rest (position + (values.flatMap encodeBytes).length), none⟩ := by
  induction values generalizing before position with
  | nil => simp [readEach]
  | cons value values ih =>
      obtain ⟨hvalue, hvalues⟩ := List.forall_mem_cons.mp h
      rw [List.flatMap_cons, List.append_assoc, List.length_cons, readEach,
        readBytes_encode hvalue]
      simp only [ih hvalues, List.reverse_cons, List.append_assoc, List.singleton_append,
        List.length_append, Nat.add_assoc]

theorem encode_of_readEach {count : Nat} {before values : List Bytes} {bytes : Bytes}
    {position : Nat} {s : Source}
    (h : readEach count before (plain bytes position) = ⟨values, s, none⟩) :
    ∃ new rest, values = before.reverse ++ new ∧ new.length = count ∧
      (∀ value ∈ new, value.length < countLimit) ∧ bytes = new.flatMap encodeBytes ++ rest ∧
      s = plain rest (position + (new.flatMap encodeBytes).length) := by
  induction count generalizing before bytes position with
  | zero =>
      simp only [readEach, Reading.mk.injEq, and_true] at h
      exact ⟨[], bytes, by simp [h.1], rfl, by simp, rfl, h.2.symm⟩
  | succ count ih =>
      rw [readEach] at h
      rcases hread : readBytes [] (plain bytes position) with ⟨value, s', fault⟩
      rw [hread] at h
      cases fault with
      | some f => simp at h
      | none =>
          obtain ⟨rest, rfl, rfl, hfits⟩ := encodeBytes_of_readBytes hread
          obtain ⟨new, rest', rfl, hlen, hall, rfl, rfl⟩ := ih h
          refine ⟨value :: new, rest', by simp, by simp [hlen], ?_, by simp, ?_⟩
          · exact List.forall_mem_cons.mpr ⟨hfits, hall⟩
          · rw [List.flatMap_cons, List.length_append, Nat.add_assoc]

/-! ## All types -/

/-- Whether no two octet strings are read as the same value, which is so without booleans. -/
def isCanonical : Ty → Bool
  | bool => false
  | pair a b => a.isCanonical && b.isCanonical
  | _ => true

theorem readInteger_encode (w : Width) (v old : BitVec w.bits) (rest : Bytes) (position : Nat) :
    readInteger w old (plain (encodeInteger w v ++ rest) position) =
      ⟨v, plain rest (position + (encodeInteger w v).length), none⟩ := by
  have hlen : (encodeInteger w v).length = w.octets := Bytes.length_ofNatLE ..
  have hlt : v.toNat < 256 ^ w.octets := by
    have hpow : 2 ^ w.bits = 256 ^ w.octets := by rw [Width.bits, Nat.pow_mul]
    exact hpow ▸ v.isLt
  have hback : Bytes.toNatLE (encodeInteger w v) = v.toNat := Bytes.toNatLE_ofNatLE_of_lt hlt
  rw [readInteger, fetch_plain (by simp [hlen]), ← hlen, List.take_left, List.drop_left]
  simp only [hback, BitVec.ofNat_toNat, BitVec.setWidth_eq]

theorem encodeInteger_of_read {w : Width} {v old : BitVec w.bits} {bytes : Bytes} {position : Nat}
    {s : Source} (h : readInteger w old (plain bytes position) = ⟨v, s, none⟩) :
    ∃ rest, bytes = encodeInteger w v ++ rest ∧
      s = plain rest (position + (encodeInteger w v).length) := by
  have hwidth : (encodeInteger w v).length = w.octets := Bytes.length_ofNatLE ..
  by_cases hroom : w.octets ≤ bytes.length
  · rw [readInteger, fetch_plain hroom] at h
    simp only [Reading.mk.injEq, and_true] at h
    obtain ⟨rfl, rfl⟩ := h
    have hlen : (bytes.take w.octets).length = w.octets := List.length_take_of_le hroom
    have hlt := Bytes.toNatLE_lt (bytes.take w.octets)
    have hpow : 2 ^ w.bits = 256 ^ w.octets := by rw [Width.bits, Nat.pow_mul]
    rw [hlen, ← hpow] at hlt
    have hback := Bytes.ofNatLE_toNatLE (bytes.take w.octets)
    rw [hlen] at hback
    have hencode : encodeInteger w (.ofNat _ (Bytes.toNatLE (bytes.take w.octets))) =
        bytes.take w.octets := by
      rw [encodeInteger, BitVec.toNat_ofNat, Nat.mod_eq_of_lt hlt, hback]
    refine ⟨bytes.drop w.octets, ?_, ?_⟩
    · rw [hencode, List.take_append_drop]
    · rw [hwidth]
  · rw [readInteger, fetch_plain_short (Nat.not_le.mp hroom)] at h
    simp at h

/-- A value whose strings and lists are short enough is written. -/
theorem write_holding (t : Ty) {v : t.Val} (h : t.Fits v) (held : Bytes) :
    t.write v (holding held) = (holding (held ++ t.encode v), none) := by
  induction t generalizing held with
  | bool => exact putReady_holding ..
  | unsigned w => exact putReady_holding ..
  | signed w => exact putReady_holding ..
  | bytes => exact writeBytes_holding h held
  | bytesList =>
      rw [write, if_neg (Nat.not_le.mpr h.1), writeCount, putReady_holding]
      simp only [andThen, writeEach_holding h.2, encode, List.append_assoc]
  | pair a b iha ihb =>
      rw [write, iha h.1]
      simp only [andThen, ihb h.2, encode, List.append_assoc]

/-- Every string in a list takes its octets and four more for its count. -/
theorem length_le_length_flatMap (values : List Bytes) :
    values.length ≤ (values.flatMap encodeBytes).length ∧
      ∀ value ∈ values, value.length ≤ (values.flatMap encodeBytes).length := by
  induction values with
  | nil => simp
  | cons value values ih =>
      obtain ⟨hlength, hvalues⟩ := ih
      have hvalue : (encodeBytes value).length = 4 + value.length := by
        simp [encodeBytes, encodeCount]
      rw [List.flatMap_cons, List.length_append, List.length_cons, List.forall_mem_cons, hvalue]
      refine ⟨by omega, by omega, fun other hother => ?_⟩
      have hother := hvalues other hother
      omega

/-- A value has only short strings and lists if it takes few octets. -/
theorem fits_of_length {t : Ty} {v : t.Val} (h : (t.encode v).length < countLimit) : t.Fits v := by
  induction t with
  | bool => trivial
  | unsigned w => trivial
  | signed w => trivial
  | bytes =>
      rw [encode, encodeBytes, List.length_append] at h
      exact Nat.lt_of_le_of_lt (Nat.le_add_left ..) h
  | bytesList =>
      rw [encode, List.length_append] at h
      have hlt : (List.flatMap encodeBytes v).length < countLimit := by omega
      obtain ⟨hlength, hvalues⟩ := length_le_length_flatMap v
      exact ⟨Nat.lt_of_le_of_lt hlength hlt,
        fun value hvalue => Nat.lt_of_le_of_lt (hvalues value hvalue) hlt⟩
  | pair a b iha ihb =>
      rw [encode, List.length_append] at h
      exact ⟨iha (by omega), ihb (by omega)⟩

/-- No other value is written, to whatever sink. -/
theorem fits_of_write {t : Ty} {v : t.Val} {s : Sink} (h : (t.write v s).2 = none) :
    t.Fits v := by
  induction t generalizing s with
  | bool => trivial
  | unsigned w => trivial
  | signed w => trivial
  | bytes => exact fits_of_writeBytes h
  | bytesList =>
      by_cases hcount : List.length v < countLimit
      · rw [write, if_neg (Nat.not_le.mpr hcount)] at h
        exact ⟨hcount, fits_of_writeEach (snd_andThen_eq_none.mp h).2⟩
      · rw [write, if_pos (Nat.not_lt.mp hcount)] at h
        contradiction
  | pair a b iha ihb =>
      obtain ⟨hfirst, hsecond⟩ := snd_andThen_eq_none.mp h
      exact ⟨iha hfirst, ihb hsecond⟩

theorem writeEach_fault {values : List Bytes} {held : Bytes} {f : Fault}
    (h : (writeEach values (holding held)).2 = some f) : f = .objectTooLarge := by
  induction values generalizing held with
  | nil => simp [writeEach] at h
  | cons value values ih =>
      by_cases hvalue : value.length < countLimit
      · rw [writeEach, writeBytes_holding hvalue] at h
        exact ih h
      · rw [writeEach, writeBytes, writeSized, if_pos (Nat.not_lt.mp hvalue)] at h
        exact (Option.some.inj h).symm

/-- A value that is not written has a string or a list that is too long. -/
theorem write_fault {t : Ty} {v : t.Val} {held : Bytes} {f : Fault}
    (h : (t.write v (holding held)).2 = some f) : f = .objectTooLarge := by
  induction t generalizing held with
  | bool => rw [write, putReady_holding] at h; contradiction
  | unsigned w => rw [write, putReady_holding] at h; contradiction
  | signed w => rw [write, putReady_holding] at h; contradiction
  | bytes =>
      by_cases hcount : List.length v < countLimit
      · rw [write, writeBytes_holding hcount] at h
        contradiction
      · rw [write, writeBytes, writeSized, if_pos (Nat.not_lt.mp hcount)] at h
        exact (Option.some.inj h).symm
  | bytesList =>
      by_cases hcount : List.length v < countLimit
      · rw [write, if_neg (Nat.not_le.mpr hcount), writeCount, putReady_holding] at h
        exact writeEach_fault h
      · rw [write, if_pos (Nat.not_lt.mp hcount)] at h
        exact (Option.some.inj h).symm
  | pair a b iha ihb =>
      rw [write] at h
      rcases hfirst : a.write v.1 (holding held) with ⟨s, fault⟩
      rw [hfirst] at h
      cases fault with
      | some g =>
          obtain rfl : g = f := Option.some.inj h
          exact iha (congrArg Prod.snd hfirst)
      | none =>
          rw [write_holding a (fits_of_write (congrArg Prod.snd hfirst))] at hfirst
          obtain ⟨rfl, -⟩ := Prod.mk.inj hfirst
          exact ihb h

/-- A value with a string or a list that is too long is refused. -/
theorem write_of_not_fits {t : Ty} {v : t.Val} (h : ¬ t.Fits v) (held : Bytes) :
    (t.write v (holding held)).2 = some .objectTooLarge := by
  cases hwrite : (t.write v (holding held)).2 with
  | none => exact absurd (fits_of_write hwrite) h
  | some f => rw [write_fault hwrite]

/-- A value that has been written is read back, whatever the variable held before and whatever
stands behind it. -/
theorem read_encode (t : Ty) {v : t.Val} (h : t.Fits v) (old : t.Val) (rest : Bytes)
    (position : Nat) :
    t.read old (plain (t.encode v ++ rest) position) =
      ⟨v, plain rest (position + (t.encode v).length), none⟩ := by
  induction t generalizing rest position with
  | bool => cases v <;> rfl
  | unsigned w => exact readInteger_encode w v old rest position
  | signed w => exact readInteger_encode w v old rest position
  | bytes => exact readBytes_encode h old rest position
  | bytesList =>
      have hfour : (encodeCount (List.length v)).length = 4 := Bytes.length_ofNatLE 4 _
      rw [encode, List.append_assoc, read, readBytesList, readCount_plain (by simp [hfour])]
      simp only [count_encodeCount h.1]
      rw [← hfour, List.drop_left, readEach_encode h.2]
      simp [Nat.add_assoc]
  | pair a b iha ihb =>
      rw [encode, List.append_assoc, read, iha h.1]
      simp only [ihb h.2, Reading.map, List.length_append, Nat.add_assoc]

/-- A value that is read has been written as just the octets that were read, unless it has a boolean
in it. -/
theorem encode_of_read {t : Ty} (ht : t.isCanonical = true) {bytes : Bytes} {old v : t.Val}
    {position : Nat} {s : Source} (h : t.read old (plain bytes position) = ⟨v, s, none⟩) :
    ∃ rest, bytes = t.encode v ++ rest ∧ s = plain rest (position + (t.encode v).length) ∧
      t.Fits v := by
  induction t generalizing bytes position s with
  | bool => contradiction
  | unsigned w =>
      obtain ⟨rest, hbytes, hs⟩ := encodeInteger_of_read h
      exact ⟨rest, hbytes, hs, trivial⟩
  | signed w =>
      obtain ⟨rest, hbytes, hs⟩ := encodeInteger_of_read h
      exact ⟨rest, hbytes, hs, trivial⟩
  | bytes => exact encodeBytes_of_readBytes h
  | bytesList =>
      by_cases hcount : 4 ≤ bytes.length
      · rw [read, readBytesList, readCount_plain hcount] at h
        obtain ⟨new, rest, hv, hlen, hall, hrest, rfl⟩ := encode_of_readEach h
        obtain rfl : v = new := by simpa using hv
        have hfits : List.length v < countLimit := by
          rw [hlen]
          exact UInt32.toNat_lt _
        have hencode : bytes = encodeCount (List.length v) ++ (List.flatMap encodeBytes v ++ rest) := by
          rw [hlen, encodeCount_of_read hcount, ← hrest, List.take_append_drop]
        refine ⟨rest, ?_, ?_, ⟨hfits, hall⟩⟩
        · rw [encode, List.append_assoc]
          exact hencode
        · simp [encode, encodeCount, Nat.add_assoc]
      · rw [read, readBytesList, readCount_plain_short (Nat.not_le.mp hcount)] at h
        simp at h
  | pair a b iha ihb =>
      simp only [isCanonical, Bool.and_eq_true] at ht
      rw [read] at h
      rcases hfirst : a.read old.1 (plain bytes position) with ⟨x, s', fault⟩
      rw [hfirst] at h
      cases fault with
      | some f => simp at h
      | none =>
          obtain ⟨rest, rfl, rfl, hx⟩ := iha ht.1 hfirst
          rcases hsecond : b.read old.2 (plain rest (position + (a.encode x).length)) with
            ⟨y, s', fault⟩
          simp only [hsecond, Reading.map, Reading.mk.injEq] at h
          obtain ⟨rfl, rfl, rfl⟩ := h
          obtain ⟨rest', rfl, rfl, hy⟩ := ihb ht.2 hsecond
          refine ⟨rest', ?_, ?_, ⟨hx, hy⟩⟩
          · rw [encode, List.append_assoc]
          · rw [encode, List.length_append, Nat.add_assoc]

end Ty

end RemoteCalls
