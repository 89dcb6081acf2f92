import SnapshotIsolation.Duration
import SnapshotIsolation.File

/-!
# Failures of the timestamp service

The causes for which a timestamp cannot be issued or the watermark cannot be kept, each with
one wording.
-/

namespace SnapshotIsolation

/-- What a process asks of the timestamp service. -/
inductive Request where
  /-- A fresh timestamp. -/
  | next
  /-- That a timestamp be kept as a floor for all later ones. -/
  | remember
  /-- The floor kept so far. -/
  | retrieve
deriving DecidableEq, Repr

/-- The name of a request inside messages. -/
def Request.name : Request → String
  | .next => "next_timestamp"
  | .remember => "remember_timestamp"
  | .retrieve => "retrieve_timestamp"

/-- Why a watermark could not be written or read. -/
inductive WatermarkFault where
  /-- The file system refused. -/
  | io (error : IoError)
  /-- The store reports a reason of its own. -/
  | reported (reason : String)
deriving DecidableEq, Repr

/-- The wording of a watermark fault. -/
def WatermarkFault.message : WatermarkFault → String
  | .io error => error.message
  | .reported reason => reason

/-- What is wrong with a stored watermark. -/
inductive WatermarkDefect where
  /-- The file does not have the length of a watermark. -/
  | length (expected found : Nat)
  /-- The checksum is not that of the timestamp. -/
  | checksum
  /-- The store reports a reason of its own. -/
  | reported (reason : String)
deriving DecidableEq, Repr

/-- The wording of a watermark defect. -/
def WatermarkDefect.message : WatermarkDefect → String
  | .length expected found =>
    "expected " ++ toString expected ++ " bytes, found " ++ toString found
  | .checksum => "checksum mismatch"
  | .reported reason => reason

/-- Why the timestamp service failed. -/
inductive TimestampError where
  /-- The service cannot be used, for a reason of its own. -/
  | unavailable (reason : String)
  /-- The request was given up after its time limit. -/
  | unanswered (request : Request) (timeout : Duration)
  /-- The connection to the service is closed. -/
  | disconnected (request : Request)
  /-- The service answered the request with a failure. -/
  | refused (request : Request) (cause : TimestampError)
  /-- No timestamp is left at or after the value reached. -/
  | overflow (reached : UInt64)
  /-- The watermark could not be written. -/
  | watermarkWrite (fault : WatermarkFault)
  /-- The watermark could not be read. -/
  | watermarkRead (fault : WatermarkFault)
  /-- The stored watermark is damaged. -/
  | corruptWatermark (defect : WatermarkDefect)
deriving DecidableEq, Repr

/-- The wording of a failure of the timestamp service. -/
def TimestampError.message : TimestampError → String
  | .unavailable reason => "timestamp authority unavailable: " ++ reason
  | .unanswered request timeout =>
    "timestamp authority unavailable: " ++ request.name ++ ": no answer within " ++ timeout.text
  | .disconnected request =>
    "timestamp authority unavailable: " ++ request.name ++ ": connection closed"
  | .refused request cause =>
    "timestamp authority unavailable: " ++ request.name ++ ": " ++ cause.message
  | .overflow reached => "timestamp overflow, reached " ++ toString reached.toNat
  | .watermarkWrite fault => "failed to persist timestamp watermark: " ++ fault.message
  | .watermarkRead fault => "failed to read timestamp watermark: " ++ fault.message
  | .corruptWatermark defect => "timestamp watermark is corrupt: " ++ defect.message

end SnapshotIsolation
