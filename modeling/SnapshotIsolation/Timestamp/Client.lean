import SnapshotIsolation.Timestamp.Authority

/-!
# The timestamp client

A process reaches the timestamp service through a transport. Each request has a time limit;
a request whose limit is zero is given up before it is sent. Every failure but an overflow
reads as the service being unavailable.
-/

namespace SnapshotIsolation

/-- What becomes of a request that was sent. -/
inductive Delivery (α : Type) where
  /-- The service answered in time. -/
  | answered (result : Except TimestampError α)
  /-- No answer came in time. -/
  | silent
  /-- The connection broke while the request was under way. -/
  | broken

/-- A way to reach a timestamp service. -/
class Transport (τ : Type) where
  /-- Asks for a fresh timestamp. -/
  next : StateM τ (Delivery Timestamp)
  /-- Asks that a timestamp be kept as a floor. -/
  remember : Timestamp → StateM τ (Delivery Unit)
  /-- Asks for the floor kept so far. -/
  retrieve : StateM τ (Delivery Timestamp)

/-- An authority in the same process answers every request. -/
instance {ω : Type} [WatermarkStore ω] : Transport (Authority ω) where
  next := Delivery.answered <$> Step.attempt Authority.next
  remember ts := Delivery.answered <$> Step.attempt (Authority.remember ts)
  retrieve := Delivery.answered <$> Authority.retrieve <$> get

/-- A service that never answers. -/
structure HungTransport where
deriving DecidableEq, Repr

instance : Transport HungTransport where
  next := return .silent
  remember _ := return .silent
  retrieve := return .silent

/-- One prepared answer. -/
inductive Prepared where
  /-- The request succeeds, with this timestamp where one is asked for. -/
  | timestamp (ts : Timestamp)
  /-- The request fails. -/
  | failure (error : TimestampError)
  /-- The connection breaks. -/
  | breakdown
deriving DecidableEq, Repr

/-- A service that gives prepared answers in order. -/
structure PreparedTransport where
  /-- The answers left. -/
  answers : List Prepared
  /-- The timestamp last kept as a floor. -/
  remembered : Option Timestamp
deriving DecidableEq, Repr

namespace PreparedTransport

/-- The failure of a service that has no answer left. -/
def exhausted : TimestampError := .unavailable "script exhausted"

/-- Takes the next prepared answer; `accept` is what a successful request gives. -/
def take {α : Type} (accept : Timestamp → α) : StateM PreparedTransport (Delivery α) := do
  match (← get).answers with
  | [] => return .answered (.error exhausted)
  | answer :: rest =>
    modify fun t => { t with answers := rest }
    match answer with
    | .timestamp ts => return .answered (.ok (accept ts))
    | .failure error => return .answered (.error error)
    | .breakdown => return .broken

instance : Transport PreparedTransport where
  next := take id
  remember ts := do
    let delivery ← take fun _ => ()
    if let .answered (.ok ()) := delivery then
      modify fun t => { t with remembered := some ts }
    return delivery
  retrieve := take id

end PreparedTransport

/-- A process's access to a timestamp service. -/
structure Client (τ : Type) where
  /-- The way to the service. -/
  transport : τ
  /-- How long a request may wait for its answer. -/
  timeout : Duration
  /-- Whether the connection still stands. -/
  connected : Bool
deriving DecidableEq, Repr

namespace Client

variable {τ : Type} [Transport τ]

/-- A client with a fresh connection. -/
def connect (transport : τ) (timeout : Duration) : Client τ := ⟨transport, timeout, true⟩

/-- How a failure of the service reads to the caller: an overflow as it is, all else as the
service being unavailable. -/
def reading (request : Request) : TimestampError → TimestampError
  | .overflow reached => .overflow reached
  | cause => .refused request cause

/-- Sends a request and waits for its answer. -/
def call {α : Type} (request : Request) (send : StateM τ (Delivery α)) :
    Step TimestampError (Client τ) α := do
  let client ← get
  if client.connected then
    if client.timeout.micros = 0 then throw (.unanswered request client.timeout)
    let (delivery, transport) := send.run client.transport
    set { client with transport := transport }
    match delivery with
    | .answered (.ok a) => return a
    | .answered (.error cause) => throw (reading request cause)
    | .silent => throw (.unanswered request client.timeout)
    | .broken =>
      modify fun c => { c with connected := false }
      throw (.unanswered request client.timeout)
  else throw (.disconnected request)

/-- A fresh timestamp. -/
def next : Step TimestampError (Client τ) Timestamp :=
  call .next Transport.next

/-- Keeps a timestamp as a floor for all later ones. -/
def remember (ts : Timestamp) : Step TimestampError (Client τ) Unit :=
  call .remember (Transport.remember ts)

/-- The floor kept so far. -/
def retrieve : Step TimestampError (Client τ) Timestamp :=
  call .retrieve Transport.retrieve

end Client

end SnapshotIsolation
