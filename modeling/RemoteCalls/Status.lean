import RemoteCalls.Bytes

/-!
# RemoteCalls.Status

The outcome of a call: a code, a message, and the lower-level cause where there
is one.
-/

namespace RemoteCalls

/-- How a call ended. -/
inductive StatusCode where
  | ok
  /-- The client is closing or has lost its connection. -/
  | unavailable
  /-- The server reported an error for this call. -/
  | remoteError
  /-- The reply's reader rejected it. -/
  | decodeFailure
  /-- The connection failed while the call was outstanding. -/
  | connectionFailure
  /-- The request could not be written. -/
  | sendFailure
  /-- A number that stands for none of these. -/
  | unlisted (number : Int)
  deriving DecidableEq, Repr, Inhabited

namespace StatusCode

/-- The code with this number. -/
def ofNumber : Int → StatusCode
  | 0 => ok
  | 1 => unavailable
  | 2 => remoteError
  | 3 => decodeFailure
  | 4 => connectionFailure
  | 5 => sendFailure
  | n => unlisted n

/-- The name of a code. -/
def name : StatusCode → Bytes
  | ok => .ofText "OK"
  | unavailable => .ofText "UNAVAILABLE"
  | remoteError => .ofText "REMOTE_ERROR"
  | decodeFailure => .ofText "DECODE_FAILURE"
  | connectionFailure => .ofText "CONNECTION_FAILURE"
  | sendFailure => .ofText "SEND_FAILURE"
  | unlisted _ => .ofText "<unknown case>"

end StatusCode

/-- The outcome of a call. -/
structure Status where
  code : StatusCode := .ok
  message : Bytes := []
  details : Bytes := []
  deriving DecidableEq, Repr, Inhabited

namespace Status

/-- Whether the call succeeded. -/
def isOk (s : Status) : Bool := s.code == .ok

/-- A status as it is shown: code, message, and the details in parentheses if there are any. -/
def render (s : Status) : Bytes :=
  if s.isOk then s.code.name
  else
    let head := s.code.name ++ .ofText ": " ++ s.message
    if s.details = [] then head else head ++ .ofText " (" ++ s.details ++ .ofText ")"

/-- The status of every call attempted on a client that is closed or has lost its connection. -/
def unavailable : Status :=
  { code := .unavailable, message := .ofText "connection has been shut down" }

end Status

end RemoteCalls
