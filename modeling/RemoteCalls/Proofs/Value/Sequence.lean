import RemoteCalls.Arithmetic.Operands
import RemoteCalls.Message.Header
import RemoteCalls.Proofs.Value.RoundTrip

/-!
# RemoteCalls.Proofs.Value.Sequence

Values of any types one after another on a stream.  Nothing stands between them:
each value's octets tell where they end, so the values behind it are read from
where it stopped.

Main statement: `sequence_round_trip`, values written in order are read back in
order, and the octets of a value that is read are those it is written as.
-/

namespace RemoteCalls

namespace TypedValue

open Source Sink

/-- Whether every string and list in a value is short enough for its count. -/
def Fits (v : TypedValue) : Prop := v.ty.Fits v.val

/-- The value of a header. -/
def ofHeader (h : Header) : TypedValue := ⟨Header.layout, h.toVal⟩

/-- The value of the operands of an arithmetic request. -/
def ofOperands (x : Arithmetic.Operands) : TypedValue := ⟨Arithmetic.Operands.layout, x.toVal⟩

/-- A header is written as its value. -/
theorem write_ofHeader (h : Header) (s : Sink) :
    (ofHeader h).ty.write (ofHeader h).val s = h.write s := rfl

/-- A header is read as its value. -/
theorem read_ofHeader (old : Header) (s : Source) :
    ((ofHeader old).ty.read (ofHeader old).val s).map Header.ofVal = old.read s := rfl

/-- Read values in order into variables, until one goes wrong: the variables after it. -/
def readAll : List TypedValue → Source → Reading (List TypedValue)
  | [], s => ⟨[], s, none⟩
  | old :: olds, s =>
      match old.ty.read old.val s with
      | ⟨v, s, some f⟩ => ⟨⟨old.ty, v⟩ :: olds, s, some f⟩
      | ⟨v, s, none⟩ => (readAll olds s).map (⟨old.ty, v⟩ :: ·)

theorem encodeAll_cons (v : TypedValue) (vs : List TypedValue) :
    encodeAll (v :: vs) = v.ty.encode v.val ++ encodeAll vs := List.flatMap_cons

/-- Values that fit are written one behind the other. -/
theorem writeAll_holding {values : List TypedValue} (hfits : ∀ v ∈ values, v.Fits) (held : Bytes) :
    writeAll values (holding held) = (holding (held ++ encodeAll values), none) := by
  induction values generalizing held with
  | nil => simp [writeAll, encodeAll]
  | cons v values ih =>
      obtain ⟨hv, hvalues⟩ := List.forall_mem_cons.mp hfits
      rw [writeAll, Ty.write_holding v.ty hv]
      simp only [andThen, ih hvalues, encodeAll_cons, List.append_assoc]

/-- Values that were written one behind the other are read into variables of their types. -/
theorem readAll_encodeAll {values olds : List TypedValue} (hfits : ∀ v ∈ values, v.Fits)
    (htypes : olds.map (·.ty) = values.map (·.ty)) (rest : Bytes) (position : Nat) :
    readAll olds (plain (encodeAll values ++ rest) position) =
      ⟨values, plain rest (position + (encodeAll values).length), none⟩ := by
  induction values generalizing olds position with
  | nil =>
      obtain rfl := List.map_eq_nil_iff.mp htypes
      rfl
  | cons v values ih =>
      obtain ⟨⟨t, old⟩, olds, rfl, rfl, hrest⟩ := List.map_eq_cons_iff.mp htypes
      obtain ⟨hv, hvalues⟩ := List.forall_mem_cons.mp hfits
      rw [encodeAll_cons, List.append_assoc, readAll, Ty.read_encode _ hv]
      simp only [ih hvalues hrest, Reading.map, List.length_append, Nat.add_assoc]

/-- Values that fit are written in order to a good stream without limit, and are read back in order
into any variables of their types, with just what stands behind them left.  Conversely, whatever the
octets are, a value without booleans that is read from them has consumed the octets it is written
as. -/
theorem sequence_round_trip {values olds : List TypedValue} (hfits : ∀ v ∈ values, v.Fits)
    (htypes : olds.map (·.ty) = values.map (·.ty)) (held rest : Bytes) (position : Nat) :
    writeAll values (holding held) = (holding (held ++ encodeAll values), none) ∧
    readAll olds (plain (encodeAll values ++ rest) position) =
      ⟨values, plain rest (position + (encodeAll values).length), none⟩ ∧
    ∀ (t : Ty) (old v : t.Val) (bytes : Bytes) (s : Source), t.isCanonical = true →
      t.read old (plain bytes position) = ⟨v, s, none⟩ →
        ∃ consumed left, bytes = consumed ++ left ∧
          s = plain left (position + consumed.length) ∧
          t.write v (holding held) = (holding (held ++ consumed), none) := by
  refine ⟨writeAll_holding hfits held, readAll_encodeAll hfits htypes rest position, ?_⟩
  intro t old v bytes s hcanonical hread
  obtain ⟨left, hbytes, hsource, hv⟩ := Ty.encode_of_read hcanonical hread
  exact ⟨t.encode v, left, hbytes, hsource, Ty.write_holding t hv held⟩

/-- A header, operands, a list of strings, a negative integer and a boolean, which are read into
variables that hold other values; and two octets that are read as a negative integer. -/
theorem sequence_round_trip_five_values :
    let values : List TypedValue :=
      [ofHeader { service := [65], method := [], seq := 258, error := [0, 255] },
        ofOperands { a := -2, b := 7 }, ⟨.bytesList, [[], [1, 2]]⟩, ⟨.signed .w64, -1⟩,
        ⟨.bool, true⟩]
    let olds : List TypedValue :=
      [ofHeader { service := [9, 9], seq := 1 }, ofOperands {}, ⟨.bytesList, [[3]]⟩,
        ⟨.signed .w64, 5⟩, ⟨.bool, false⟩]
    writeAll values (holding [8]) = (holding ([8] ++ encodeAll values), none) ∧
    readAll olds (plain (encodeAll values ++ [6, 6]) 0) =
      ⟨values, plain [6, 6] (encodeAll values).length, none⟩ ∧
    ∃ consumed left : Bytes, [254, 255, 4] = consumed ++ left ∧
      plain [4] 2 = plain left (0 + consumed.length) ∧
      Ty.write (.signed .w16) (-2 : BitVec 16) (holding [8]) =
        (holding ([8] ++ consumed), none) := by
  intro values olds
  have hfits : ∀ v ∈ values, v.Fits := by
    simp [values, Fits, ofHeader, ofOperands, Ty.Fits, Header.toVal, Ty.countLimit]
  have htypes : olds.map (·.ty) = values.map (·.ty) := rfl
  obtain ⟨hwrite, hread, hback⟩ := sequence_round_trip hfits htypes [8] [6, 6] 0
  exact ⟨hwrite, by rw [hread, Nat.zero_add],
    hback (.signed .w16) (0 : BitVec 16) (-2 : BitVec 16) [254, 255, 4] (plain [4] 2) rfl
      rfl⟩

end TypedValue

end RemoteCalls
