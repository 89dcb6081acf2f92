/-!
# Durations

A span of time in whole microseconds, and its shortest text: the largest unit in which it is
at least one, with as many decimals as it needs.
-/

namespace SnapshotIsolation

/-- A span of time, in microseconds. -/
structure Duration where
  /-- Number of microseconds. -/
  micros : Nat
deriving DecidableEq, Repr

namespace Duration

/-- Five seconds: how long a timestamp request waits unless told otherwise. -/
def standard : Duration := ⟨5000000⟩

/-- The decimals of `n / 10 ^ places`, without zeros at the end. -/
def decimals : (places : Nat) → Nat → List Char
  | 0, _ => []
  | places + 1, n =>
    if n = 0 then []
    else Nat.digitChar (n / Nat.pow 10 places) :: decimals places (n % Nat.pow 10 places)

/-- `n / 10 ^ places` in decimal notation, with a point only if decimals follow. -/
def fixed (places n : Nat) : String :=
  let whole := toString (n / Nat.pow 10 places)
  match decimals places (n % Nat.pow 10 places) with
  | [] => whole
  | ds => whole ++ "." ++ String.ofList ds

/-- The text of a duration. -/
def text (d : Duration) : String :=
  if d.micros = 0 then "0ns"
  else if d.micros < 1000 then toString d.micros ++ "µs"
  else if d.micros < 1000000 then fixed 3 d.micros ++ "ms"
  else fixed 6 d.micros ++ "s"

/-- One and a half milliseconds keep one decimal. -/
example : text ⟨1500⟩ = "1.5ms" := by decide +kernel

/-- Whole seconds have no point. -/
example : text standard = "5s" := by decide +kernel

end Duration

end SnapshotIsolation
