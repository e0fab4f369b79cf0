import RemoteCalls.Bytes

/-!
# RemoteCalls.Value.Ty

The types of values that cross the wire, what their values are, and the octets
each value is sent as:

1. integers take their own width, least significant octet first;
2. a boolean is one octet, `0` or `1`;
3. octet strings and lists of them carry a 32-bit count in front;
4. a pair is its first value and then its second.
-/

namespace RemoteCalls

/-- The widths of an integer on the wire. -/
inductive Width where
  | w8
  | w16
  | w32
  | w64
  deriving DecidableEq, Repr, Inhabited

/-- How many octets an integer of this width takes. -/
def Width.octets : Width → Nat
  | w8 => 1
  | w16 => 2
  | w32 => 4
  | w64 => 8

/-- How many bits an integer of this width has. -/
def Width.bits (w : Width) : Nat := 8 * w.octets

/-- The types of values. -/
inductive Ty where
  | bool
  | unsigned (w : Width)
  | signed (w : Width)
  | bytes
  | bytesList
  | pair (first second : Ty)
  deriving DecidableEq, Repr, Inhabited

namespace Ty

/-- The values of a type.  Integers are their bits, which a signed type reads as two's complement. -/
@[reducible] def Val : Ty → Type
  | bool => Bool
  | unsigned w => BitVec w.bits
  | signed w => BitVec w.bits
  | bytes => Bytes
  | bytesList => List Bytes
  | pair a b => a.Val × b.Val

/-- The value a variable of this type holds at first. -/
def blank : (t : Ty) → t.Val
  | bool => false
  | unsigned _ => 0
  | signed _ => 0
  | bytes => []
  | bytesList => []
  | pair a b => (a.blank, b.blank)

/-! ## Octets of a value -/

/-- One more than the greatest count that fits in front of a string or list. -/
def countLimit : Nat := 4294967296

/-- The octets of a count. -/
def encodeCount (n : Nat) : Bytes := .ofNatLE 4 n

/-- An octet string behind its count. -/
def encodeBytes (bytes : Bytes) : Bytes := encodeCount bytes.length ++ bytes

/-- The octets of an integer. -/
def encodeInteger (w : Width) (v : BitVec w.bits) : Bytes := .ofNatLE w.octets v.toNat

/-- The octet of a boolean. -/
def encodeBool (v : Bool) : Bytes := [if v then 1 else 0]

/-- The octets a value is sent as. -/
def encode : (t : Ty) → t.Val → Bytes
  | bool, v => encodeBool v
  | unsigned w, v => encodeInteger w v
  | signed w, v => encodeInteger w v
  | bytes, v => encodeBytes v
  | bytesList, v => encodeCount (List.length v) ++ List.flatMap encodeBytes v
  | pair a b, v => a.encode v.1 ++ b.encode v.2

/-- Whether every string and list in a value is short enough for its count. -/
def Fits : (t : Ty) → t.Val → Prop
  | bool, _ => True
  | unsigned _, _ => True
  | signed _, _ => True
  | bytes, v => List.length v < countLimit
  | bytesList, v => List.length v < countLimit ∧ ∀ s ∈ v, List.length s < countLimit
  | pair a b, v => a.Fits v.1 ∧ b.Fits v.2

end Ty

/-- A value together with its type. -/
structure TypedValue where
  ty : Ty
  val : ty.Val

namespace TypedValue

/-- The octets of a list of values, one after another. -/
def encodeAll (vs : List TypedValue) : Bytes := vs.flatMap fun v => v.ty.encode v.val

end TypedValue

end RemoteCalls
