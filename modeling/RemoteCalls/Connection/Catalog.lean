import RemoteCalls.Abort
import RemoteCalls.Connection.Preamble

/-!
# RemoteCalls.Connection.Catalog

The codecs that connections can be opened with, by name.  This library's own is
there from the start; registering a name again replaces what it stood for.
-/

namespace RemoteCalls

/-- Codec factories of type `φ` by name. -/
structure Catalog (φ : Type) where
  entries : List (Bytes × φ)

namespace Catalog

variable {φ : Type}

/-- The catalog that holds this library's own codec only. -/
def initial (builtin : φ) : Catalog φ := ⟨[(binaryCodec, builtin)]⟩

/-- The factory registered under `name`. -/
def find? (c : Catalog φ) (name : Bytes) : Option φ :=
  (c.entries.find? fun entry => entry.1 == name).map (·.2)

/-- Register a factory under `name`, in place of any other. -/
def insert (c : Catalog φ) (name : Bytes) (factory : φ) : Catalog φ :=
  ⟨(name, factory) :: c.entries.filter fun entry => entry.1 != name⟩

/-- As `insert`, for a caller that promises a factory. -/
def register (c : Catalog φ) (name : Bytes) (factory : Option φ) : Except Abort (Catalog φ) :=
  match factory with
  | none => .error .missingFactory
  | some f => .ok (c.insert name f)

end Catalog

end RemoteCalls
