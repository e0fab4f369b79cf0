import RemoteCalls.Proofs.Arithmetic.Serving
import RemoteCalls.Proofs.Client.Responses

/-!
# RemoteCalls.Proofs.Arithmetic.Service

Calls of the arithmetic service and how they end.

`Asked.Answered` is the table of the service over the integers.  A response to the
request of a call gives the call the outcome in that table
(`Asked.answered_of_respond`), as long as the result fits the reply.
-/

namespace RemoteCalls.Arithmetic

open Client

/-- The replies to arithmetic calls. -/
abbrev Reply := (Ty.signed .w32).Val

/-- A call of the arithmetic service. -/
structure Asked where
  service : Bytes := []
  method : Bytes
  operands : Operands
  /-- What the reply holds before it is read. -/
  reply : Int32 := 0
  deriving DecidableEq, Repr

namespace Asked

/-- What such a call asks for. -/
def request (q : Asked) : Request Reply :=
  { service := q.service, method := q.method
    args := some (.ofValue Operands.layout q.operands.toVal)
    reader := some (.ofType (.signed .w32)), reply := q.reply.toBitVec }

/-- Whether the names in a call are short enough for any response to it. -/
def IsShort (q : Asked) : Prop := q.service.length + q.method.length ≤ nameLimit

instance (q : Asked) : Decidable q.IsShort := inferInstanceAs (Decidable (_ ≤ _))

/-- The header of a call that is short fits its frame under any number. -/
theorem IsShort.length_header {q : Asked} (h : q.IsShort) {header : Header}
    (hservice : header.service = q.service) (hmethod : header.method = q.method)
    (herror : header.error = []) : header.encode.length ≤ defaultLimit := by
  have hlimits : nameLimit + 20 ≤ defaultLimit := by decide
  rw [IsShort] at h
  rw [Header.length_encode, hservice, hmethod, herror, List.length_nil]
  omega

theorem length_body (x : Operands) : (Operands.layout.encode x.toVal).length ≤ defaultLimit := by
  have height : (Operands.layout.encode x.toVal).length = 8 := by
    rw [Ty.encode, List.length_append]
    exact congrArg₂ (· + ·) (Bytes.length_ofNatLE 4 _) (Bytes.length_ofNatLE 4 _)
  rw [height]
  decide


/-! ## Results -/

/-- Whether an integer can be a reply. -/
def IsReply (n : Int) : Prop := -2147483648 ≤ n ∧ n < 2147483648

instance (n : Int) : Decidable (IsReply n) := inferInstanceAs (Decidable (_ ∧ _))

/-- A call that is short, and whose result fits the reply if it has one. -/
structure Valid (q : Asked) : Prop where
  short : q.IsShort
  sum : q.method = .ofText "Add" ∨ q.method = .ofText "Orphan" →
    IsReply (q.operands.a.toInt + q.operands.b.toInt)
  quotient : q.method = .ofText "Div" → q.operands.b ≠ 0 →
    IsReply (q.operands.a.toInt.tdiv q.operands.b.toInt)

instance (q : Asked) : Decidable q.Valid :=
  decidable_of_iff
    (q.IsShort ∧
      (q.method = .ofText "Add" ∨ q.method = .ofText "Orphan" →
        IsReply (q.operands.a.toInt + q.operands.b.toInt)) ∧
      (q.method = .ofText "Div" → q.operands.b ≠ 0 →
        IsReply (q.operands.a.toInt.tdiv q.operands.b.toInt)))
    ⟨fun h => ⟨h.1, h.2.1, h.2.2⟩, fun h => ⟨h.short, h.sum, h.quotient⟩⟩

/-- Whether this is how a call ends that is answered: with its result, or with an error and its
reply untouched. -/
def Answered (q : Asked) (error : Status) (reply : Reply) : Prop :=
  if q.method = .ofText "Add" ∨ q.method = .ofText "Orphan" then
    error = {} ∧ reply.toInt = q.operands.a.toInt + q.operands.b.toInt
  else if q.method = .ofText "Div" then
    if q.operands.b = 0 then
      error = { code := .remoteError, message := .ofText "divide by zero" } ∧
        reply = q.reply.toBitVec
    else error = {} ∧ reply.toInt = q.operands.a.toInt.tdiv q.operands.b.toInt
  else
    error = { code := .remoteError, message := .ofText "unknown method" } ∧
      reply = q.reply.toBitVec

/-- Whether this is how a call ends that hangs: with its connection, and its reply untouched. -/
def Lost (q : Asked) (error : Status) (reply : Reply) : Prop :=
  error.code = .connectionFailure ∧ reply = q.reply.toBitVec

theorem toInt_add_of_isReply {a b : Int32} (h : IsReply (a.toInt + b.toInt)) :
    (a + b).toInt = a.toInt + b.toInt := by
  rw [Int32.toInt_add]
  exact Int.bmod_eq_of_le h.1 h.2

theorem toInt_div_of_isReply {a b : Int32} (h : IsReply (a.toInt.tdiv b.toInt)) :
    (a / b).toInt = a.toInt.tdiv b.toInt := by
  rw [Int32.toInt_div]
  exact Int.bmod_eq_of_le h.1 h.2

/-! ## Responses -/

/-- A result is read as the reply. -/
theorem outcome_of_result (q : Asked) {r : Response} (herror : r.header.error = []) :
    outcome q.request r.message.response = ({}, r.result.toBitVec) := by
  have hread := BodyReader.ofType_encode (.signed .w32) (v := r.result.toBitVec) trivial
    q.reply.toBitVec
  simp only [Message.response, Response.message, outcome, herror, ne_eq, not_true, if_false,
    request, hread, if_true]
  rfl

/-- An error text leaves the reply untouched. -/
theorem outcome_of_error (q : Asked) {r : Response} {text : Bytes} (hne : text ≠ [])
    (herror : r.header.error = text) :
    outcome q.request r.message.response = (remoteError text, q.reply.toBitVec) := by
  subst herror
  exact Client.outcome_of_error hne _

/-- A response to the request of a call, under its number, gives the call its outcome. -/
theorem answered_of_respond {q : Asked} (hvalid : q.Valid) {h : Header}
    (hmethod : h.method = q.method) (herror : h.error = []) {r : Response}
    (hr : r ∈ respond h q.operands) (hown : r.header.seq = h.seq) {error : Status} {reply : Reply}
    (houtcome : (error, reply) = outcome q.request r.message.response) :
    q.Answered error reply := by
  have hzero : Bytes.ofText "divide by zero" ≠ [] := by decide
  have hunknown : Bytes.ofText "unknown method" ≠ [] := by decide
  unfold respond at hr
  rw [hmethod] at hr
  split at hr
  case isTrue hadd =>
    obtain rfl := List.mem_singleton.mp hr
    rw [outcome_of_result q herror] at houtcome
    rw [Answered, if_pos (.inl hadd)]
    obtain ⟨rfl, rfl⟩ := Prod.mk.inj houtcome
    exact ⟨rfl, toInt_add_of_isReply (hvalid.sum (.inl hadd))⟩
  case isFalse hadd =>
  split at hr
  case isTrue hdiv =>
    have hnot : ¬ (q.method = .ofText "Add" ∨ q.method = .ofText "Orphan") := by
      rw [hdiv]
      decide
    rw [Answered, if_neg hnot, if_pos hdiv]
    split at hr
    case isTrue hb =>
      obtain rfl := List.mem_singleton.mp hr
      rw [outcome_of_error q hzero rfl] at houtcome
      rw [if_pos hb]
      exact Prod.mk.inj houtcome
    case isFalse hb =>
      obtain rfl := List.mem_singleton.mp hr
      rw [outcome_of_result q herror] at houtcome
      obtain ⟨rfl, rfl⟩ := Prod.mk.inj houtcome
      rw [if_neg hb]
      exact ⟨rfl, toInt_div_of_isReply (hvalid.quotient hdiv hb)⟩
  case isFalse hdiv =>
  split at hr
  case isTrue => contradiction
  case isFalse =>
  split at hr
  case isTrue horphan =>
    obtain rfl | rfl := List.mem_pair.mp hr
    · -- The first response carries another number.
      simp [orphanDistance] at hown
    · rw [outcome_of_result q herror] at houtcome
      rw [Answered, if_pos (.inr horphan)]
      obtain ⟨rfl, rfl⟩ := Prod.mk.inj houtcome
      exact ⟨rfl, toInt_add_of_isReply (hvalid.sum (.inr horphan))⟩
  case isFalse horphan =>
    obtain rfl := List.mem_singleton.mp hr
    rw [outcome_of_error q hunknown rfl] at houtcome
    rw [Answered, if_neg (not_or_intro hadd horphan), if_neg hdiv]
    exact Prod.mk.inj houtcome

/-- Every request that does not hang is answered under its own number. -/
theorem exists_own_response {h : Header} (hmethod : h.method ≠ .ofText "Hang") (x : Operands) :
    ∃ r ∈ respond h x, r.header.seq = h.seq := by
  unfold respond
  repeat' split
  all_goals first
    | contradiction
    | simp

theorem respond_of_hang {h : Header} (hmethod : h.method = .ofText "Hang") (x : Operands) :
    respond h x = [] := by
  unfold respond
  rw [hmethod]
  rfl

end Asked

end RemoteCalls.Arithmetic
