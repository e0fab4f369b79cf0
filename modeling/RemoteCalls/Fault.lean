import RemoteCalls.Bytes

/-!
# RemoteCalls.Fault

The ways in which an operation on bytes, streams and connections goes wrong.
An operation returns `Option Fault`, where `none` is success, or an
`Except Fault` when it also has a result.

Faults come from three tables of numbered conditions — this library's own, the
operating system's, and the end of a connection as a socket reports it — and
every one has a name of its table, a number in it, and a wording.
-/

namespace RemoteCalls

/-- A cause of failure. -/
inductive Fault where
  /-- Foreign code called by the operation threw. -/
  | exceptionOccurred
  /-- The stream was already in a failed state when the operation began. -/
  | streamNotReady
  /-- The source ended before the value did. -/
  | prematureEof
  /-- The stream reports a failure that is neither loss nor end of file. -/
  | fail
  /-- The stream reports that octets were lost. -/
  | bad
  /-- A length exceeds what its field or the connection's limit allows. -/
  | objectTooLarge
  /-- A frame does not hold exactly what it should. -/
  | invalidData
  /-- The connection has ended or has been closed. -/
  | connectionClosed
  /-- A frame arrived whole but its reader rejected it. -/
  | bodyDecodeFailed
  /-- No codec is registered under the name asked for. -/
  | invalidCodec
  /-- A connection opened with something other than this protocol's mark. -/
  | badMagicNumber
  /-- A number of this library's table that has no meaning there. -/
  | unlisted (number : Int)
  /-- A condition of the operating system. -/
  | system (number : Int)
  /-- The peer of a socket has no more to send. -/
  | endOfStream
  deriving DecidableEq, Repr, Inhabited

namespace Fault

/-! ## This library's table -/

/-- The fault with this number; zero means success. -/
def ofNumber? : Int → Option Fault
  | 0 => none
  | 1 => some exceptionOccurred
  | 2 => some streamNotReady
  | 3 => some prematureEof
  | 4 => some fail
  | 5 => some bad
  | 6 => some objectTooLarge
  | 7 => some invalidData
  | 8 => some connectionClosed
  | 9 => some bodyDecodeFailed
  | 10 => some invalidCodec
  | 11 => some badMagicNumber
  | n => some (unlisted n)

/-- The operating system's condition with this number; zero means success. -/
def ofSystem? (number : Int) : Option Fault :=
  if number = 0 then none else some (system number)

/-- The number of a fault in its own table. -/
def number : Fault → Int
  | exceptionOccurred => 1
  | streamNotReady => 2
  | prematureEof => 3
  | fail => 4
  | bad => 5
  | objectTooLarge => 6
  | invalidData => 7
  | connectionClosed => 8
  | bodyDecodeFailed => 9
  | invalidCodec => 10
  | badMagicNumber => 11
  | unlisted n => n
  | system n => n
  | endOfStream => 2

/-! ## Wordings -/

/-- The name of this library's table. -/
def ownCategory : Bytes := .ofText "muxrpc"

/-- The table a fault belongs to. -/
def category : Fault → Bytes
  | system _ => .ofText "system"
  | endOfStream => .ofText "asio.misc"
  | _ => ownCategory

/-- The operating system's wording of one of its conditions. -/
def systemMessage : Int → Bytes
  | 5 => .ofText "Input/output error"
  | 9 => .ofText "Bad file descriptor"
  | 12 => .ofText "Cannot allocate memory"
  | 32 => .ofText "Broken pipe"
  | 101 => .ofText "Network is unreachable"
  | 104 => .ofText "Connection reset by peer"
  | 107 => .ofText "Transport endpoint is not connected"
  | 110 => .ofText "Connection timed out"
  | 111 => .ofText "Connection refused"
  | 113 => .ofText "No route to host"
  | n => .ofText "Unknown error " ++ .signedDecimal n

/-- What a person is told about a fault. -/
def message : Fault → Bytes
  | exceptionOccurred => .ofText "exception occurred"
  | streamNotReady => .ofText "stream not ready"
  | prematureEof => .ofText "premature eof"
  | fail => .ofText "fail"
  | bad => .ofText "bad"
  | objectTooLarge => .ofText "object too large"
  | invalidData => .ofText "invalid data"
  | connectionClosed => .ofText "connection closed"
  | bodyDecodeFailed => .ofText "body decode failed"
  | invalidCodec => .ofText "invalid codec type"
  | badMagicNumber => .ofText "bad magic number"
  | unlisted _ => .ofText "(unknown error)"
  | system n => systemMessage n
  | endOfStream => .ofText "End of file"

/-- The wording of a number of this library's table, success included. -/
def messageOfNumber (n : Int) : Bytes :=
  (ofNumber? n).elim (.ofText "okay") message

/-- Table, number and wording, separated by colons. -/
def describe (f : Fault) : Bytes :=
  f.category ++ .ofText ":" ++ .signedDecimal f.number ++ .ofText ":" ++ f.message

end Fault

end RemoteCalls
