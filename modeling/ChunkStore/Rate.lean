import ChunkStore.Numeric.Rounding
import ChunkStore.Text.Numeral

/-!
# Rate limits

A ceiling on throughput in kilobytes per second, its even share among clients, and
the time it allots to a number of bytes.
-/

namespace ChunkStore

/-- Kilobytes per second; zero means that nothing is limited. -/
structure RateLimit where
  kilobytes : Nat
  deriving Repr, DecidableEq

namespace RateLimit

def unlimited : RateLimit := ⟨0⟩

instance : Inhabited RateLimit := ⟨unlimited⟩

def isUnlimited (l : RateLimit) : Bool := l.kilobytes == 0

def bytesPerSecond (l : RateLimit) : Nat := min (l.kilobytes * 1024) (Text.wordBound - 1)

/-- The even share of one of `clients` concurrent clients. -/
def share (l : RateLimit) (clients : Nat) : RateLimit :=
  if l.isUnlimited ∨ clients ≤ 1 then l else ⟨max 1 (l.kilobytes / clients)⟩

/-- The nanoseconds allotted to `bytes`: the quotient of two doubles, rounded to a
double and then to whole nanoseconds. -/
def allotment (l : RateLimit) (bytes : Nat) : Nat :=
  let seconds := ((Numeric.Ratio.ofNat bytes).toDouble.div
    (Numeric.Ratio.ofNat l.bytesPerSecond).toDouble).toDouble
  (seconds.mul (.ofNat 1000000000)).round

/-- The least share is one kilobyte, so that a finite limit never becomes unlimited. -/
theorem isUnlimited_share (l : RateLimit) (clients : Nat) :
    (l.share clients).isUnlimited = l.isUnlimited := by
  unfold share
  split
  · rfl
  · rename_i h
    have finite : l.isUnlimited = false := by simp_all
    rw [finite]
    simp only [isUnlimited, beq_eq_false_iff_ne]
    omega

theorem allotment_zero (l : RateLimit) : l.allotment 0 = 0 := by
  simp [allotment, Numeric.Ratio.toDouble, Numeric.Ratio.ofNat, Numeric.Ratio.div,
    Numeric.Ratio.mul, Numeric.Ratio.round, Numeric.roundDiv_zero]

end RateLimit

end ChunkStore
