import SnapshotIsolation.Timestamp.Watermark

/-!
# The timestamp authority

The authority issues timestamps one after the other. Before it issues a value above its
reserved ceiling it stores a higher ceiling as the watermark; after a restart it continues
above the watermark, so that no value is issued twice.
-/

namespace SnapshotIsolation

/-- An issuer of timestamps over a watermark store. -/
structure Authority (ω : Type) where
  /-- The next value to issue. -/
  counter : UInt64
  /-- The ceiling that the watermark is known to have reached. -/
  reserved : UInt64
  /-- How many values one watermark write reserves; at least one. -/
  blockSize : UInt64
  /-- Where the watermark is kept. -/
  watermarks : ω
deriving DecidableEq, Repr

namespace Authority

variable {ω : Type} [WatermarkStore ω]

/-- How many values one watermark write reserves unless told otherwise. -/
def standardBlock : UInt64 := 1024

/-- An authority that continues above the stored watermark. -/
def recover (watermarks : ω) (blockSize : UInt64) : Except TimestampError (Authority ω) := do
  let watermark := (← WatermarkStore.load watermarks).getD .zero
  if Timestamp.limit ≤ watermark then throw (.overflow watermark.raw)
  return {
    counter := watermark.raw + 1
    reserved := watermark.raw
    blockSize := if blockSize = 0 then 1 else blockSize
    watermarks := watermarks }

/-- The value that would be issued next. -/
def current (a : Authority ω) : Timestamp := ⟨a.counter⟩

/-- The end of the block that starts at a value, never beyond the limit. -/
def ceiling (start blockSize : UInt64) : UInt64 :=
  if Timestamp.limit.toNat ≤ start.toNat + (blockSize.toNat - 1) then Timestamp.limit.raw
  else start + (blockSize - 1)

/-- Keeps a watermark. -/
def keep (ts : Timestamp) : Step TimestampError (Authority ω) Unit :=
  Step.focus watermarks (fun w a => { a with watermarks := w }) (WatermarkStore.store ts)

/-- Reserves the block that starts at a value. -/
def reserveThrough (start : UInt64) : Step TimestampError (Authority ω) Unit := do
  let top := ceiling start (← get).blockSize
  keep ⟨top⟩
  modify fun a => { a with reserved := top }

/-- Issues the next timestamp. -/
def next : Step TimestampError (Authority ω) Timestamp := do
  let counter := (← get).counter
  if Timestamp.limit.raw ≤ counter then throw (.overflow counter)
  if (← get).reserved < counter then reserveThrough counter
  modify fun a => { a with counter := counter + 1 }
  return ⟨counter⟩

/-- Issues several timestamps; the first refusal ends it. -/
def nextMany : Nat → Step TimestampError (Authority ω) (List Timestamp)
  | 0 => return []
  | count + 1 => do
    let ts ← next
    let rest ← nextMany count
    return ts :: rest

/-- Makes a timestamp a floor for all later ones; the watermark never goes down. -/
def remember (ts : Timestamp) : Step TimestampError (Authority ω) Unit := do
  if Timestamp.limit ≤ ts then throw (.overflow ts.raw)
  let top := max (← get).reserved ts.raw
  keep ⟨top⟩
  modify fun a => { a with reserved := top, counter := max a.counter (ts.raw + 1) }

/-- The stored watermark; zero before the first one. -/
def retrieve (a : Authority ω) : Except TimestampError Timestamp := do
  return (← WatermarkStore.load a.watermarks).getD .zero

end Authority

end SnapshotIsolation
