import RestoreEngine.Bytes.Delivery
import RestoreEngine.Model.PbsWire
import RestoreEngine.Model.Text

/-!
# `pbs_wire.py`: the reader protocol

A connection to a PBS server is upgraded to the reader protocol, which is HTTP/2 (`openReader`), and
then files are downloaded over it (`get`). What the calls of `recv` return is an argument, and so
are the events that the HTTP/2 library makes of the data of a call: nobody chooses where the stream
is cut.

What is sent is left out, and how bytes that are not UTF-8 are decoded is left to Python.
-/

namespace RestoreEngine.PbsWire

open Delivery

/-! ### The upgrade -/

/-- `b"\r\n\r\n"`. -/
def headersEnd : List UInt8 := [13, 10, 13, 10]

/-- `b"\r\n"`. -/
def lineEnd : List UInt8 := [13, 10]

/-- How much `_open_reader` asks `recv` for. -/
def upgradeRecv : ℕ := 4096

/-- How much of an answer `_open_reader` reads. -/
def upgradeLimit : ℕ := 65536

/-- What `_open_reader` hands on: the bytes behind the headers that it has read already, and what
`recv` will return. -/
structure ReaderSession where
  leftover : List UInt8
  unread : List (List UInt8)

/-- The exceptions of the loop. -/
def upgradeError : GiveUp → Exn
  | .ended => .runtimeError "EOF during PBS reader upgrade"
  | .exceeded => .runtimeError "PBS reader upgrade response too large"

/-- `status_line`. -/
def statusLine (decode : List UInt8 → String) (head : List UInt8) : String :=
  decode (((cut lineEnd head).map Prod.fst).getD head)

/-- The check of the status line. -/
def checkUpgrade (decode : List UInt8 → String) (head : List UInt8) : Except Exn Unit :=
  if Text.contains (statusLine decode head) "101" then .ok ()
  else .error (.runtimeError s!"PBS reader upgrade failed: {statusLine decode head}")

/-- **`_open_reader`**, of what the calls of `recv` return. -/
def openReader (decode : List UInt8 → String) (chunks : List (List UInt8)) :
    Except Exn ReaderSession :=
  match readUntil headersEnd upgradeLimit [] chunks with
  | .error why => .error (upgradeError why)
  | .ok (buf, unread) =>
    match cut headersEnd buf with
    | none => .error (.valueError "not enough values to unpack (expected 2, got 1)")
    | some (head, rest) => do
      checkUpgrade decode head
      return { leftover := rest, unread }

/-! ### Downloads -/

/-- The events of the HTTP/2 library. -/
inductive ReaderEvent
  | responseReceived (streamId : ℕ) (status : ℤ)
  | dataReceived (streamId : ℕ) (data : List UInt8)
  | streamEnded (streamId : ℕ)
  | streamReset (streamId errorCode : ℕ)
  | other
  deriving DecidableEq

/-- What `get` has of a response. -/
structure Response where
  status : Option ℤ := none
  body : List UInt8 := []
  done : Bool := false

/-- An event while the response of a stream is awaited. -/
def Response.note (sid : ℕ) (resp : Response) : ReaderEvent → Except Exn Response
  | .responseReceived streamId status =>
    .ok (if streamId = sid then { resp with status := some status } else resp)
  | .dataReceived streamId data =>
    .ok (if streamId = sid then { resp with body := resp.body ++ data } else resp)
  | .streamEnded streamId => .ok (if streamId = sid then { resp with done := true } else resp)
  | .streamReset streamId errorCode =>
    if streamId = sid then .error (.runtimeError s!"PBS reader stream reset ({errorCode})")
    else .ok resp
  | .other => .ok resp

/-- The loop of `get`: the events come in batches, one for each call of `recv`. Returned are the
status and the body, and the batches to come. -/
def getFrom (sid : ℕ) (resp : Response) :
    List (List ReaderEvent) → Except Exn ((ℤ × List UInt8) × List (List ReaderEvent))
  | [] => .error (.runtimeError "PBS reader connection closed")
  | batch :: batches => do
    let resp ← batch.foldlM (Response.note sid) resp
    if resp.done then return ((resp.status.getD 0, resp.body), batches)
    else getFrom sid resp batches

/-- **`_ReaderSession.get`**. -/
def get (sid : ℕ) (batches : List (List ReaderEvent)) :
    Except Exn ((ℤ × List UInt8) × List (List ReaderEvent)) :=
  getFrom sid {} batches

end RestoreEngine.PbsWire
