import SnapshotIsolation.Transaction.Basic

/-!
# Refusals of transaction operations

Why an operation on a transaction is refused, each cause with one wording.
-/

namespace SnapshotIsolation

/-- What is wrong with a chain of ancestors. -/
inductive ChainFault where
  /-- The transaction id is zero. -/
  | zeroId
  /-- An ancestor is zero or does not lie below the member before it. -/
  | unordered (ancestor below : Timestamp)
deriving DecidableEq, Repr

/-- The wording of a chain fault. -/
def ChainFault.message : ChainFault → String
  | .zeroId => "zero is not a transaction id"
  | .unordered ancestor below =>
    "ancestor " ++ ancestor.text ++ " does not precede " ++ below.text

/-- Why an operation on a transaction is refused. -/
inductive TransactionError where
  /-- No transaction has this id. -/
  | notFound (id : Timestamp)
  /-- The record's status does not allow the move. -/
  | invalidTransition (id : Timestamp) (source target : Status)
  /-- The transaction is committed at another time. -/
  | commitConflict (id existing attempted : Timestamp)
  /-- The commit time does not lie after the begin time. -/
  | commitBeforeBegin (id commitTs : Timestamp)
  /-- The ancestors do not form a chain below the transaction. -/
  | invalidChain (id : Timestamp) (fault : ChainFault)
  /-- The transaction is settled. -/
  | notActive (id : Timestamp) (status : Status)
  /-- The parent transaction is settled. -/
  | parentNotActive (parent : Timestamp) (status : Status)
  /-- A transaction has this id already. -/
  | alreadyExists (id : Timestamp)
deriving DecidableEq, Repr

/-- The wording of a refusal. -/
def TransactionError.message : TransactionError → String
  | .notFound id => "transaction " ++ id.text ++ " not found"
  | .invalidTransition id source target =>
    "transaction " ++ id.text ++ " cannot move from " ++ source.text ++ " to " ++ target.text
  | .commitConflict id existing attempted =>
    "transaction " ++ id.text ++ " already committed at " ++ existing.text ++ ", refusing "
      ++ attempted.text
  | .commitBeforeBegin id commitTs =>
    "commit timestamp " ++ commitTs.text ++ " does not follow begin timestamp of " ++ id.text
  | .invalidChain id fault => "invalid ancestor chain for " ++ id.text ++ ": " ++ fault.message
  | .notActive id status => "transaction " ++ id.text ++ " is " ++ status.text ++ ", not active"
  | .parentNotActive parent status =>
    "parent transaction " ++ parent.text ++ " is " ++ status.text
  | .alreadyExists id => "transaction " ++ id.text ++ " already exists"

end SnapshotIsolation
