import RemoteCalls.Client.State

/-!
# RemoteCalls.Client.Receiver

The steps of the receiver: it reads responses in whatever order they arrive, and
gives each to the call it belongs to.

A reply that its reader rejects has been consumed whole, so reading goes on.
Any other fault ends the receiver, and every call that has no response yet fails
with it.
-/

namespace RemoteCalls.Client

variable {σ ρ : Type} [ByteStream σ]

/-! ## Wordings -/

/-- What is logged about a response that belongs to no call. -/
def strayResponse (h : Header) : Log.Entry :=
  Log.debug (.ofText "discarding response to " ++ h.service ++ .ofText "." ++ h.method
    ++ .ofText " seq=" ++ .decimal h.seq.toNat ++ .ofText ": no such call")

/-- The outcome of a call that failed at the peer. -/
def remoteError (text : Bytes) : Status := { code := .remoteError, message := text }

/-- The outcome of a call whose reply could not be read. -/
def replyFailure (code : StatusCode) (f : Fault) : Status :=
  { code, message := .ofText "reading body", details := f.message }

/-- What calls are told that were still in flight when the connection ended. -/
def lostMessage : Bytes := .ofText "connection has been shut down"

/-- The outcome of the calls that were still in flight when the connection ended. -/
def connectionLost (f : Fault) : Status :=
  { code := .connectionFailure, message := lostMessage, details := f.message }

/-- Whether a call was still in flight when the connection ended. -/
def isLost (s : Status) : Bool := s.code == .connectionFailure && s.message == lostMessage

/-- What is logged when the receiver ends: a failure, unless the client has been closed. -/
def farewell (available : Bool) (f : Fault) : Log.Entry :=
  if available then Log.warning (.ofText "rpc connection failed: " ++ f.message)
  else Log.info (.ofText "rpc connection closed: " ++ f.message)

/-! ## Steps -/

/-- What follows a call or a response: the next header, or the end. -/
def afterCall : Option Fault → Receiver
  | none => .header .size
  | some f => .stopping f

/-- Read on in a frame: `resume` says where the receiver is when it has to wait, and `finish` what
it does with the frame. -/
def stepFrame (c : Client σ ρ) (stage : Frame.Stage) (waiting : Frame.Stage → Receiver)
    (finish : Client σ ρ → Except Fault Bytes → Client σ ρ) : Turn (Client σ ρ) :=
  match c.codec.resume stage with
  | .waiting reached codec =>
      if reached = stage then .blocked
      else .moved { c with codec, receiver := waiting reached }
  | .done codec result => .moved (finish { c with codec } result)

/-- What the receiver does with a header frame. -/
def onHeader (c : Client σ ρ) (result : Except Fault Bytes) : Client σ ρ :=
  match Header.receive {} result with
  | (_, some f) => { c with receiver := .stopping f }
  | (response, none) => { c with receiver := .matching response }

/-- What the receiver does with a header: find the call that it belongs to. -/
def onResponse (c : Client σ ρ) (response : Header) : Client σ ρ :=
  match c.board.remove response.seq with
  | (none, board) =>
      noteReceiver { c with board, receiver := .skipping .size none } [strayResponse response]
  | (some id, board) =>
      if response.error = [] then { c with board, receiver := .reply .size id }
      else
        { c with
          board := board.setError id (remoteError response.error)
          receiver := .skipping .size (some id) }

/-- What the receiver does after a body that nobody reads. -/
def onSkipped (c : Client σ ρ) (call : Option CallId) (result : Except Fault Bytes) :
    Client σ ρ :=
  let (_, _, fault) := BodyReader.receive none () result
  match call with
  | none => { c with receiver := afterCall fault }
  | some id => { c with receiver := .finishing id fault }

/-- The outcome of a call whose reply was read so and which had the outcome `before`, and the fault
that ends the receiver, if any: a reply that was consumed but rejected ends nothing. -/
def replyOutcome (before : Status) : Option Fault → Status × Option Fault
  | none => (before, none)
  | some .bodyDecodeFailed => (replyFailure .decodeFailure .bodyDecodeFailed, none)
  | some f => (replyFailure .connectionFailure f, some f)

/-- What the receiver does with the frame of a reply. -/
def onReply (c : Client σ ρ) (id : CallId) (result : Except Fault Bytes) : Client σ ρ :=
  match c.board.call? id with
  | none => c
  | some call =>
      let (reply, entries, fault) := BodyReader.receive call.reader call.reply result
      let (error, fault) := replyOutcome call.error fault
      noteReceiver
        { c with
          board := c.board.modifyCall id ({ · with reply, error })
          receiver := .finishing id fault }
        entries

/-- The next step of the receiver. -/
def stepReceiver (c : Client σ ρ) : Turn (Client σ ρ) :=
  match c.receiver with
  | .header stage => c.stepFrame stage .header onHeader
  | .matching response => .moved (c.onResponse response)
  | .skipping stage call => c.stepFrame stage (.skipping · call) (onSkipped · call)
  | .reply stage call => c.stepFrame stage (.reply · call) (onReply · call)
  | .finishing call fault =>
      (c.board.finish call).map fun board => { c with board, receiver := afterCall fault }
  | .stopping f =>
      .moved (noteReceiver { c with receiver := .locking f } [farewell c.isAvailable f])
  | .locking f =>
      match c.lock with
      | some _ => .blocked
      | none => .moved { c with lock := some .receiver, receiver := .taking f }
  | .taking f =>
      let (calls, board) := c.board.takeAll c.order
      .moved { c with board, receiver := .terminating f calls }
  | .terminating _ [] => .moved { c with receiver := .unlocking }
  | .terminating f (call :: calls) =>
      (c.board.finishWith (connectionLost f) call).map fun board =>
        { c with board, receiver := .terminating f calls }
  | .unlocking => .moved { c with lock := none, receiver := .exited }
  | .exited => .blocked

end RemoteCalls.Client
