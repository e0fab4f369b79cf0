import RemoteCalls.Call.Queue

/-!
# RemoteCalls.Call.Registry

The calls in flight, by sequence number.  Whoever takes a call out of the
registry owns its completion, so that a call is completed once however many
parties race for it.  When all calls are taken out they come in no order of
their own (`Registry.Order`).

Two flags end registration: `closing`, when the owner of the connection closes
it, and `shutdown`, when the connection has failed.
-/

namespace RemoteCalls

/-- The calls in flight. -/
structure Registry where
  /-- The sequence number of the next call; zero stands for no call. -/
  nextSeq : UInt64 := 1
  /-- The calls in flight, the first registered first. -/
  pending : List (UInt64 × CallId) := []
  /-- The owner has closed the connection. -/
  closing : Bool := false
  /-- The connection has failed. -/
  shutdown : Bool := false
  deriving DecidableEq, Repr, Inhabited

namespace Registry

/-- An order in which calls are taken out of a registry when all of them are: any order will do, as
long as each call comes once. -/
structure Order where
  arrange : List CallId → List CallId
  perm (calls : List CallId) : (arrange calls).Perm calls

/-- The call registered last in front. -/
def Order.newestFirst : Order := ⟨List.reverse, List.reverse_perm⟩

/-- Whether calls can be registered. -/
def isAvailable (r : Registry) : Bool := !r.closing && !r.shutdown

/-- The call in flight under this number. -/
def find? (r : Registry) (seq : UInt64) : Option CallId := r.pending.lookup seq

/-- Put a call in flight under this number, unless the number is taken. -/
def insert (r : Registry) (seq : UInt64) (call : CallId) : Registry :=
  match r.find? seq with
  | none => { r with pending := r.pending ++ [(seq, call)] }
  | some _ => r

/-- Register a call under the next number, unless registration has ended. -/
def register? (r : Registry) (call : CallId) : Option (UInt64 × Registry) :=
  if r.isAvailable then
    some (r.nextSeq, { r.insert r.nextSeq call with nextSeq := r.nextSeq + 1 })
  else none

/-- Take the call with this number out. -/
def remove (r : Registry) (seq : UInt64) : Option CallId × Registry :=
  (r.find? seq, { r with pending := r.pending.filter fun entry => entry.1 != seq })

/-- A registry that has been shut down, and that has no call left. -/
def emptied (r : Registry) : Registry := { r with pending := [], shutdown := true }

/-- Shut down, and take all calls out in this order. -/
def takeAll (r : Registry) (order : Order) : List CallId × Registry :=
  (order.arrange (r.pending.map (·.2)), r.emptied)

/-- Start to close, if nobody has before. -/
def beginClose? (r : Registry) : Option Registry :=
  if r.closing then none else some { r with closing := true }

end Registry

end RemoteCalls
