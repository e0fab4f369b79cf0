import RemoteCalls.Arithmetic.Operands
import RemoteCalls.Abort
import RemoteCalls.Connection.Preamble
import RemoteCalls.Message.Codec

/-!
# RemoteCalls.Arithmetic.Server

A peer that does arithmetic, for one connection:

1. `Add` answers with the sum;
2. `Div` answers with the quotient, or with an error if the divisor is zero;
3. `Hang` is never answered;
4. `Orphan` answers with the sum, after a response to a call that nobody made.

Any other method is answered with an error.  The server ends when its connection
does, or when it cannot write.
-/

namespace RemoteCalls.Arithmetic

/-- A response of the server. -/
structure Response where
  header : Header
  result : Int32 := 0
  deriving DecidableEq, Repr

namespace Response

/-- Writes the result as a body. -/
def body (r : Response) : BodyWriter := .ofValue (.signed .w32) r.result.toBitVec

end Response

/-- How far the sequence number of an orphaned response is from its request's. -/
def orphanDistance : UInt64 := 1000

/-- The responses to a request, in order. -/
def respond (request : Header) (x : Operands) : List Response :=
  if request.method = .ofText "Add" then [⟨request, x.a + x.b⟩]
  else if request.method = .ofText "Div" then
    if x.b = 0 then [⟨{ request with error := .ofText "divide by zero" }, 0⟩]
    else [⟨request, x.a / x.b⟩]
  else if request.method = .ofText "Hang" then []
  else if request.method = .ofText "Orphan" then
    [⟨{ request with seq := request.seq + orphanDistance }, 0⟩, ⟨request, x.a + x.b⟩]
  else [⟨{ request with error := .ofText "unknown method" }, 0⟩]

/-- Where a server stands. -/
inductive Phase where
  /-- Reading the record that opens the connection. -/
  | greeting (stage : Frame.Stage)
  /-- Reading the header of a request. -/
  | header (stage : Frame.Stage)
  /-- Reading the body of a request. -/
  | body (stage : Frame.Stage) (request : Header)
  | stopped
  deriving DecidableEq, Repr

/-- A server on a connection. -/
structure Server (σ : Type) where
  codec : Codec σ
  /-- The record the connection was opened with. -/
  preamble : Preamble := {}
  /-- What was wrong with that record. -/
  openingFault : Option Fault := none
  /-- How many requests have been read. -/
  requests : Nat := 0
  phase : Phase := .greeting .size

namespace Server

variable {σ : Type} [ByteStream σ]

/-- A server that has yet to read the opening record. -/
def start (stream : σ) : Server σ := { codec := { stream } }

/-- Change the state of the connection. -/
def withStream (s : Server σ) (stream : σ) : Server σ :=
  { s with codec := s.codec.withStream stream }

/-- Whether the server has ended. -/
def isStopped (s : Server σ) : Bool := s.phase = .stopped

/-- Send responses in order, and stop if one cannot be written. -/
def send : List Response → Server σ → Server σ
  | [], s => s
  | r :: rs, s =>
      match s.codec.write r.header (some r.body) with
      | (codec, _, none) => send rs { s with codec }
      | (codec, _, some _) => { s with codec, phase := .stopped }

/-- What the server does with the frame of the opening record. -/
def onGreeting (s : Server σ) (result : Except Fault Bytes) : Server σ :=
  let (preamble, openingFault) := s.preamble.receive result
  { s with
    preamble, openingFault
    phase := if openingFault.isSome then .stopped else .header .size }

/-- What the server does with the frame of a header. -/
def onHeader (s : Server σ) (result : Except Fault Bytes) : Server σ :=
  match Header.receive {} result with
  | (_, some _) => { s with phase := .stopped }
  | (request, none) => { s with phase := .body .size request }

/-- Count a request and respond to it. -/
def answer (s : Server σ) (request : Header) (x : Operands) : Server σ :=
  send (respond request x) { s with requests := s.requests + 1, phase := .header .size }

/-- What the server does with the frame of a body: operands that cannot be read are taken as far as
they can. -/
def onBody (s : Server σ) (request : Header) (result : Except Fault Bytes) : Server σ :=
  match BodyReader.receive (some (.ofType Operands.layout)) ({} : Operands).toVal result with
  | (x, _, none) | (x, _, some .bodyDecodeFailed) => s.answer request (.ofVal x)
  | (_, _, some _) => { s with phase := .stopped }

/-- Read on in a frame: `waiting` says where the server is when it has to wait, and `finish` what
it does with the frame. -/
def stepFrame (s : Server σ) (stage : Frame.Stage) (progress : Frame.Progress (Codec σ))
    (waiting : Frame.Stage → Phase) (finish : Server σ → Except Fault Bytes → Server σ) :
    Turn (Server σ) :=
  match progress with
  | .waiting reached codec =>
      if reached = stage then .blocked
      else .moved { s with codec, phase := waiting reached }
  | .done codec result => .moved (finish { s with codec } result)

/-- The next step of the server. -/
def step (s : Server σ) : Turn (Server σ) :=
  match s.phase with
  | .greeting stage =>
      s.stepFrame stage ((Preamble.resume stage s.codec.stream).map s.codec.withStream) .greeting
        onGreeting
  | .header stage => s.stepFrame stage (s.codec.resume stage) .header onHeader
  | .body stage request =>
      s.stepFrame stage (s.codec.resume stage) (.body · request) (onBody · request)
  | .stopped => .blocked

/-- Let the server take at most `fuel` steps. -/
def run : Nat → Server σ → Server σ
  | 0, s => s
  | fuel + 1, s =>
      match s.step with
      | .moved s => run fuel s
      | _ => s

/-- Let the server go on until it has to wait: a request takes fewer steps than it has octets. -/
def settle (s : Server σ) : Server σ := run (ByteStream.unread s.codec.stream + 8) s

end Server

end RemoteCalls.Arithmetic
