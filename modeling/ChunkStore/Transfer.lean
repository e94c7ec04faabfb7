import ChunkStore.Failure
import ChunkStore.Rate
import ChunkStore.Text.Utf8

/-!
# Transfers

Blocks of bytes handed over no faster than a limit. Time is a clock of whole
milliseconds that moves only when something waits. A throttle compares the bytes
counted so far with the time since it started, so that rounding does not add up
over many blocks.
-/

namespace ChunkStore

abbrev Millis := Nat

/-- The first whole millisecond at or after a moment given in nanoseconds. -/
def wake (nanos : Nat) : Millis := (nanos + 999999) / 1000000

structure Throttle where
  limit : RateLimit
  started : Millis
  transferred : Nat := 0
  deriving Repr, DecidableEq

namespace Throttle

/-- Counts `bytes` and waits until the limit allows them; also the time at which the
wait ends. -/
def consume (t : Throttle) (bytes : Nat) (now : Millis) : Throttle × Millis :=
  let total := t.transferred + bytes
  ({ t with transferred := total },
    if t.limit.isUnlimited then now
    else max now (wake (t.started * 1000000 + t.limit.allotment total)))

end Throttle

/-- A stream that delivers `blocks` no faster than `limit`. A failure stands where
the stream breaks. -/
structure Source where
  blocks : List (Except Failure Bytes)
  limit : RateLimit := .unlimited

namespace Source

def blockSize : Nat := 65536

def cut (content : Bytes) : List Bytes :=
  if content = [] then []
  else content.take blockSize :: cut (content.drop blockSize)
termination_by content.length
decreasing_by
  rename_i h
  have : 0 < content.length := List.length_pos_iff.2 h
  simp only [List.length_drop, blockSize]
  omega

def ofBytes (content : Bytes) : Source := ⟨[.ok content], .unlimited⟩

def ofContent (content : Bytes) (limit : RateLimit) : Source :=
  ⟨(cut content).map .ok, limit⟩

/-- The blocks that `throttle` delivers from time `now` on, each with the time at
which it is handed over, up to and including the first failure. -/
def scheduleFrom (throttle : Throttle) (now : Millis) :
    List (Except Failure Bytes) → List (Except Failure Bytes × Millis)
  | [] => []
  | .error e :: _ => [(.error e, now)]
  | .ok block :: rest =>
    let (throttle, now) := throttle.consume block.length now
    (.ok block, now) :: scheduleFrom throttle now rest

def schedule (s : Source) (now : Millis) : List (Except Failure Bytes × Millis) :=
  scheduleFrom ⟨s.limit, now, 0⟩ now s.blocks

/-- Collects blocks from `supply`, each counted by `own` once it was handed over. The
first failure ends the copy, and nothing read before it is returned. -/
def copyFrom (supply own : Throttle) (now : Millis) :
    List (Except Failure Bytes) → Except Failure Bytes × Millis
  | [] => (.ok [], now)
  | .error e :: _ => (.error e, now)
  | .ok block :: rest =>
    let (supply, now) := supply.consume block.length now
    let (own, now) := own.consume block.length now
    let (result, now) := copyFrom supply own now rest
    (result.map (block ++ ·), now)

def copy (s : Source) (limit : RateLimit) (now : Millis) : Except Failure Bytes × Millis :=
  copyFrom ⟨s.limit, now, 0⟩ ⟨limit, now, 0⟩ now s.blocks

def drain (s : Source) (now : Millis) : Except Failure Bytes × Millis :=
  s.copy .unlimited now

theorem flatten_cut (content : Bytes) : (cut content).flatten = content := by
  induction content using cut.induct with
  | case1 => simp [cut]
  | case2 content h ih =>
    rw [cut]
    simp [h, ih]

end Source

end ChunkStore
