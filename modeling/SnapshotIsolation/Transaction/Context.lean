import SnapshotIsolation.Transaction.Codec

/-!
# Transaction context

A request that is carried out in another process than the one that began its transaction
brings the handle along as bytes: a byte for the format, then the handle and nothing else.
-/

namespace SnapshotIsolation

/-- Why bytes are no transaction context. -/
inductive ContextError where
  /-- There are no bytes. -/
  | empty
  /-- The first byte names another format. -/
  | unsupportedVersion (version : UInt8)
  /-- The handle cannot be read. -/
  | unreadable (error : WireError)
  /-- Bytes follow the handle. -/
  | trailing (count : Nat)
  /-- The handle's ancestors form no chain. -/
  | refused (error : TransactionError)
deriving DecidableEq, Repr

/-- What a context error says about the bytes. -/
def ContextError.reason : ContextError → String
  | .empty => "empty input"
  | .unsupportedVersion version => "unsupported format version " ++ toString version.toNat
  | .unreadable error => error.message
  | .trailing count => toString count ++ " trailing bytes"
  | .refused error => error.message

/-- The wording of a context error. -/
def ContextError.message (e : ContextError) : String :=
  "malformed transaction context: " ++ e.reason

namespace Context

/-- The byte that names the format. -/
def version : UInt8 := 1

/-- The bytes of a handle in transit. -/
def encode (h : Handle) : Bytes := version :: h.put

/-- The handle that the bytes carry. -/
def decode : Bytes → Except ContextError Handle
  | [] => .error .empty
  | first :: payload =>
    if first = version then
      match Handle.read.run payload with
      | .error e => .error (.unreadable e)
      | .ok (h, rest) =>
        if rest.isEmpty then
          match Handle.ofChain h.id h.ancestors h.isolation with
          | .ok h => .ok h
          | .error e => .error (.refused e)
        else .error (.trailing rest.length)
    else .error (.unsupportedVersion first)

end Context

end SnapshotIsolation
