import RemoteCalls.Value.Ty

/-!
# RemoteCalls.Arithmetic.Operands

The arguments of the arithmetic service: two 32-bit integers.
-/

namespace RemoteCalls.Arithmetic

/-- The arguments of an arithmetic request. -/
structure Operands where
  a : Int32 := 0
  b : Int32 := 0
  deriving DecidableEq, Repr, Inhabited

namespace Operands

/-- The order of the operands on the wire. -/
abbrev layout : Ty := .pair (.signed .w32) (.signed .w32)

/-- The operands in the order of the wire. -/
def toVal (x : Operands) : layout.Val := (x.a.toBitVec, x.b.toBitVec)

/-- The operands in this order. -/
def ofVal (v : layout.Val) : Operands := ⟨.ofBitVec v.1, .ofBitVec v.2⟩

@[simp] theorem ofVal_toVal (x : Operands) : ofVal x.toVal = x := rfl

end Operands

end RemoteCalls.Arithmetic
