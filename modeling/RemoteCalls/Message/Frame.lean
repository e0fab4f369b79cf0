import RemoteCalls.Transport.ByteStream

/-!
# RemoteCalls.Message.Frame

Frames: a 32-bit count of octets and then the octets.  A frame is read in two
stages, its count and its payload, and a read that has to wait is resumed at the
stage it had reached.

A count above the limit is refused before any of the payload is read.  The
payload goes into a buffer that is reused from frame to frame, which shows only
where the connection ends quietly in the middle of a frame: `fill` says what the
buffer holds after a read, and `fill_eq` that a read of all octets leaves nothing
of what it held before.
-/

namespace RemoteCalls.Frame

/-- The octets of a frame. -/
def encode (payload : Bytes) : Bytes := Bytes.ofNatLE 4 payload.length ++ payload

/-- How far the reading of a frame has come. -/
inductive Stage where
  | size
  | payload (count : Nat)
  deriving DecidableEq, Repr, Inhabited

/-- A connection, and the buffer that the payloads of its frames are read into. -/
structure Input (σ : Type) where
  stream : σ
  /-- What the last read of a payload has left in the buffer. -/
  buffer : Bytes := []

/-- What became of reading a frame from something in state `σ`. -/
inductive Progress (σ : Type) where
  /-- The stage reached, at which the octets are not there yet. -/
  | waiting (stage : Stage) (state : σ)
  | done (state : σ) (result : Except Fault Bytes)

namespace Progress

/-- The same progress with its state seen through `f`. -/
def map {σ τ : Type} (f : σ → τ) : Progress σ → Progress τ
  | waiting stage state => waiting stage (f state)
  | done state result => done (f state) result

end Progress

/-- What a buffer holds that held `held`, was given room for `count` octets, and then got `bytes` at
its front: old octets behind them, and zeros where it had none. -/
def fill (held : Bytes) (count : Nat) (bytes : Bytes) : Bytes :=
  bytes ++ ((held.drop bytes.length).take (count - bytes.length)
    ++ List.replicate (count - max held.length bytes.length) 0)

/-- A buffer that got all its octets holds just these. -/
theorem fill_eq {held : Bytes} {count : Nat} {bytes : Bytes} (h : bytes.length = count) :
    fill held count bytes = bytes := by
  simp [fill, h, Nat.sub_eq_zero_of_le (Nat.le_max_right _ _)]

/-- A buffer holds as many octets as it has room for. -/
theorem length_fill {held : Bytes} {count : Nat} {bytes : Bytes} (h : bytes.length ≤ count) :
    (fill held count bytes).length = count := by
  simp only [fill, List.length_append, List.length_take, List.length_drop, List.length_replicate]
  omega

variable {σ : Type} [ByteStream σ]

/-- Read the payload of a frame. -/
def readPayload (count : Nat) (i : Input σ) : Progress (Input σ) :=
  match ByteStream.read count i.stream with
  | .waiting => .waiting (.payload count) i
  | .done stream bytes fault =>
      let buffer := fill i.buffer count bytes
      .done { stream, buffer } (fault.elim (.ok buffer) .error)

/-- Read a frame of at most `limit` octets, starting at the stage it has reached.  Octets of the
count that did not come are zero. -/
def resume (limit : Nat) (stage : Stage) (i : Input σ) : Progress (Input σ) :=
  match stage with
  | .payload count => readPayload count i
  | .size =>
      match ByteStream.read 4 i.stream with
      | .waiting => .waiting .size i
      | .done stream _ (some f) => .done { i with stream } (.error f)
      | .done stream bytes none =>
          let count := Bytes.toNatLE bytes
          if limit < count then .done { i with stream } (.error .objectTooLarge)
          else readPayload count { i with stream }

end RemoteCalls.Frame
