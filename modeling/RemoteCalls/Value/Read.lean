import RemoteCalls.Stream.Source
import RemoteCalls.Value.Ty

/-!
# RemoteCalls.Value.Read

Reading a value from a source, into a variable that already holds one.

When the source ends too early the variable keeps what arrived: an integer its
old value, a string the octets that came, a list its complete elements, a pair
its complete parts.

A string is read in blocks, and room for a block is made only when the block
before it has arrived, so that a count that promises too much costs at most one
block.
-/

namespace RemoteCalls

/-- A variable after a read, with the source and what went wrong. -/
structure Reading (α : Type) where
  value : α
  source : Source
  fault : Option Fault

namespace Reading

/-- The same reading of a variable seen through `f`. -/
def map {α β : Type} (f : α → β) (r : Reading α) : Reading β := ⟨f r.value, r.source, r.fault⟩

end Reading

namespace Ty

/-! ## Strings -/

/-- The most octets of a string that are asked for at once. -/
def blockSize : UInt32 := 65536

/-- A block of `n` octets of which `bytes` have arrived; the others are zero. -/
def block (n : UInt32) (bytes : Bytes) : Bytes :=
  bytes ++ List.replicate (n.toNat - bytes.length) 0

/-- The size of the block after the first `pos` of `size` octets. -/
def nextBlock (size pos : UInt32) : UInt32 :=
  if size - pos < blockSize then size - pos else blockSize

theorem toNat_nextBlock {size pos : UInt32} (h : pos < size) :
    (nextBlock size pos).toNat = min 65536 (size.toNat - pos.toNat) := by
  have hsub : (size - pos).toNat = size.toNat - pos.toNat :=
    UInt32.toNat_sub_of_le _ _ (UInt32.le_of_lt h)
  have hblock : blockSize.toNat = 65536 := rfl
  unfold nextBlock
  split
  case isTrue hb =>
    have := UInt32.lt_iff_toNat_lt.mp hb
    omega
  case isFalse hb =>
    have := mt UInt32.lt_iff_toNat_lt.mpr hb
    omega

/-- Positions in a string do not wrap around. -/
theorem toNat_add_nextBlock {size pos : UInt32} (h : pos < size) :
    (pos + nextBlock size pos).toNat = pos.toNat + (nextBlock size pos).toNat := by
  have hn := toNat_nextBlock h
  have hsize : size.toNat < 2 ^ 32 := size.toNat_lt
  have hlt : pos.toNat < size.toNat := UInt32.lt_iff_toNat_lt.mp h
  rw [UInt32.toNat_add, Nat.mod_eq_of_lt]
  omega

/-- Read the octets of a string of `size` from its position `pos` on, block by block. -/
def readBlocks (size pos : UInt32) (s : Source) : Reading Bytes :=
  if pos < size then
    let n := nextBlock size pos
    let t := s.transfer n.toNat
    let arrived := block n t.bytes
    if t.escaped then ⟨arrived, t.source, some .exceptionOccurred⟩
    else if t.source.condition.isFailed then ⟨arrived, t.source, t.source.condition.verdict⟩
    else (readBlocks size (pos + n) t.source).map (arrived ++ ·)
  else ⟨[], s, s.condition.verdict⟩
termination_by size.toNat - pos.toNat
decreasing_by
  rename_i h _ _
  have hadd := toNat_add_nextBlock h
  have hn := toNat_nextBlock h
  have hlt : pos.toNat < size.toNat := UInt32.lt_iff_toNat_lt.mp h
  omega

/-- Read a count. -/
def readCount (s : Source) : Source × Except Fault UInt32 :=
  match s.fetch 4 with
  | (s, .ok octets) => (s, .ok (.ofNat (Bytes.toNatLE octets)))
  | (s, .error f) => (s, .error f)

/-- Read an octet string into a variable that holds `old`. -/
def readBytes (old : Bytes) (s : Source) : Reading Bytes :=
  match readCount s with
  | (s, .error f) => ⟨old, s, some f⟩
  | (s, .ok size) => readBlocks size 0 s

/-! ## Lists -/

/-- Read `count` more strings behind those in `before`, which are in reverse order. -/
def readEach : Nat → List Bytes → Source → Reading (List Bytes)
  | 0, before, s => ⟨before.reverse, s, none⟩
  | count + 1, before, s =>
      match readBytes [] s with
      | ⟨_, s, some f⟩ => ⟨before.reverse, s, some f⟩
      | ⟨b, s, none⟩ => readEach count (b :: before) s

/-- Read a list of octet strings into a variable that holds `old`. -/
def readBytesList (old : List Bytes) (s : Source) : Reading (List Bytes) :=
  match readCount s with
  | (s, .error f) => ⟨old, s, some f⟩
  | (s, .ok count) => readEach count.toNat [] s

/-! ## All types -/

/-- Read an integer into a variable that holds `old`. -/
def readInteger (w : Width) (old : BitVec w.bits) (s : Source) : Reading (BitVec w.bits) :=
  match s.fetch w.octets with
  | (s, .error f) => ⟨old, s, some f⟩
  | (s, .ok octets) => ⟨.ofNat _ (Bytes.toNatLE octets), s, none⟩

/-- Read a boolean into a variable that holds `old`: every octet but zero is true. -/
def readBool (old : Bool) (s : Source) : Reading Bool :=
  match s.fetch 1 with
  | (s, .error f) => ⟨old, s, some f⟩
  | (s, .ok octets) => ⟨Bytes.toNatLE octets != 0, s, none⟩

/-- Read a value into a variable that holds `old`. -/
def read : (t : Ty) → t.Val → Source → Reading t.Val
  | bool, old, s => readBool old s
  | unsigned w, old, s => readInteger w old s
  | signed w, old, s => readInteger w old s
  | bytes, old, s => readBytes old s
  | bytesList, old, s => readBytesList old s
  | pair a b, old, s =>
      match a.read old.1 s with
      | ⟨x, s, some f⟩ => ⟨(x, old.2), s, some f⟩
      | ⟨x, s, none⟩ => (b.read old.2 s).map (x, ·)

end Ty

end RemoteCalls
