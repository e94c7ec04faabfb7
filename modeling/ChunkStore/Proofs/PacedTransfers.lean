import ChunkStore.Proofs.NearestDoubles
import ChunkStore.Proofs.TransferBlocks
import Mathlib.Order.Bounds.Defs

/-!
# Paced transfers

A throttle waits until its limit allows the bytes counted so far. Since it compares them with the
time at which it started, and not with the end of its last wait, what earlier waits were rounded
up by is not added to later ones: a transfer that is on time stays on time. When a transfer
is done depends on the number of its bytes, and not on how they were cut into blocks.
-/

namespace ChunkStore

theorem wake_le_iff {nanos t : Nat} : wake nanos ≤ t ↔ nanos ≤ t * 1000000 := by
  have rounded (m n : Nat) : (m + 999999) / 1000000 ≤ n ↔ m ≤ n * 1000000 := by omega
  exact rounded nanos t

theorem wake_mono {m n : Nat} (h : m ≤ n) : wake m ≤ wake n :=
  wake_le_iff.2 (h.trans (wake_le_iff.1 (Nat.le_refl _)))

theorem wake_millis (t : Nat) : wake (t * 1000000) = t := by
  have whole (n : Nat) : (n * 1000000 + 999999) / 1000000 = n := by omega
  exact whole t

namespace RateLimit

/-- A limit that holds since `start` allows so many bytes at a time if the time that they are
allotted has passed then. -/
def Allows (l : RateLimit) (start : Millis) (bytes : Nat) (t : Millis) : Prop :=
  start * 1000000 + l.allotment bytes ≤ t * 1000000

variable {l : RateLimit} {start t : Millis} {m n : Nat}

theorem Allows.fewer (h : l.Allows start n t) (finite : 0 < l.kilobytes) (less : m ≤ n) :
    l.Allows start m t :=
  (Nat.add_le_add_left (allotment_mono finite less) _).trans h

theorem isLeast_allows (l : RateLimit) (start : Millis) (bytes : Nat) :
    IsLeast {t | l.Allows start bytes t} (wake (start * 1000000 + l.allotment bytes)) :=
  ⟨wake_le_iff.1 (Nat.le_refl _), fun _ late => wake_le_iff.2 late⟩

end RateLimit

def sleep (now : Millis) (nanos : Nat) : Millis := wake (now * 1000000 + nanos)

/-- To wait for a moment is to sleep for what is left until it comes. -/
theorem max_wake {start now : Nat} (h : start ≤ now) (nanos : Nat) :
    max now (wake (start * 1000000 + nanos)) =
      sleep now (nanos - (now - start) * 1000000) := by
  obtain ⟨passed, rfl⟩ := Nat.exists_eq_add_of_le h
  rw [sleep, Nat.add_sub_cancel_left]
  rcases Nat.le_total (passed * 1000000) nanos with ahead | reached
  · have moment : (start + passed) * 1000000 + (nanos - passed * 1000000) =
        start * 1000000 + nanos := by omega
    have earlier : (start + passed) * 1000000 ≤ start * 1000000 + nanos := by
      rw [Nat.add_mul]
      exact Nat.add_le_add_left ahead _
    have early : start + passed ≤ wake (start * 1000000 + nanos) := by
      have now := wake_mono earlier
      rwa [wake_millis] at now
    exact (max_eq_right early).trans (congrArg wake moment.symm)
  · rw [Nat.sub_eq_zero_of_le reached, Nat.add_zero, wake_millis]
    have late : wake (start * 1000000 + nanos) ≤ start + passed := wake_le_iff.2 (by omega)
    exact max_eq_left late

namespace Throttle

/-- The time from which on the limit allows the bytes counted so far. -/
def due (t : Throttle) : Millis := wake (t.started * 1000000 + t.limit.allotment t.transferred)

def count (t : Throttle) (bytes : Nat) : Throttle :=
  { t with transferred := t.transferred + bytes }

variable {t : Throttle}

theorem count_count (t : Throttle) (m n : Nat) : (t.count m).count n = t.count (m + n) := by
  simp [count, Nat.add_assoc]

theorem due_fresh (limit : RateLimit) (now : Millis) : (⟨limit, now, 0⟩ : Throttle).due = now := by
  rw [due, RateLimit.allotment_zero, Nat.add_zero, wake_millis]

theorem consume_unlimited (h : t.limit.isUnlimited = true) (bytes : Nat) (now : Millis) :
    t.consume bytes now = (t.count bytes, now) := by
  rw [consume, if_pos h, count]

theorem consume_limited (h : 0 < t.limit.kilobytes) (bytes : Nat) (now : Millis) :
    t.consume bytes now = (t.count bytes, max now (t.count bytes).due) := by
  rw [consume, RateLimit.isUnlimited_eq_false_iff.2 h]
  rfl

/-- A throttle sleeps: for as long as the time that the bytes are allotted is ahead of the time
that has passed since it started. -/
theorem consume_eq_sleep (h : 0 < t.limit.kilobytes) {now : Millis} (started : t.started ≤ now)
    (bytes : Nat) :
    t.consume bytes now = (t.count bytes, sleep now
      (t.limit.allotment (t.transferred + bytes) - (now - t.started) * 1000000)) := by
  rw [consume_limited h, due]
  exact congrArg (Prod.mk (t.count bytes)) (max_wake started _)

/-- A transfer that is on time is on time after further bytes, however many at once. -/
theorem consume_due (h : 0 < t.limit.kilobytes) (bytes : Nat) :
    t.consume bytes t.due = (t.count bytes, (t.count bytes).due) := by
  rw [consume_limited h]
  have later : t.due ≤ (t.count bytes).due := by
    apply wake_mono
    have more := RateLimit.allotment_mono h (Nat.le_add_right t.transferred bytes)
    exact Nat.add_le_add_left more _
  rw [max_eq_right later]

end Throttle

namespace Source

open Throttle

variable {t : Throttle}

/-- Each block of a stream that is on time is handed over when the limit allows all bytes up to
its end. -/
theorem getElem?_scheduleFrom (h : 0 < t.limit.kilobytes) (blocks : List Bytes) (k : Nat) :
    (scheduleFrom t t.due (blocks.map .ok))[k]? =
      blocks[k]?.map fun block =>
        (.ok block, (t.count (blocks.take (k + 1)).flatten.length).due) := by
  induction blocks generalizing t k with
  | nil => simp [scheduleFrom]
  | cons block blocks ih =>
    simp only [List.map_cons, scheduleFrom, consume_due h]
    cases k with
    | zero => simp
    | succ k =>
      have limited : 0 < (t.count block.length).limit.kilobytes := h
      rw [List.getElem?_cons_succ, ih limited, List.getElem?_cons_succ, List.take_succ_cons,
        List.flatten_cons, List.length_append, count_count]

theorem copyFrom_due {supply : Throttle} (instant : supply.limit.isUnlimited = true)
    (h : 0 < t.limit.kilobytes) (blocks : List Bytes) :
    (copyFrom supply t t.due (blocks.map .ok)).2 = (t.count blocks.flatten.length).due := by
  induction blocks generalizing supply t with
  | nil => rfl
  | cons block blocks ih =>
    have limited : 0 < (t.count block.length).limit.kilobytes := h
    have unlimited : (supply.count block.length).limit.isUnlimited = true := instant
    simp only [List.map_cons, copyFrom, consume_unlimited instant, consume_due h]
    rw [ih unlimited limited, List.flatten_cons, List.length_append, count_count]

theorem copyFrom_unlimited {supply : Throttle} (instant : supply.limit.isUnlimited = true)
    (free : t.limit.isUnlimited = true) (now : Millis) (stream : List (Except Failure Bytes)) :
    (copyFrom supply t now stream).2 = now := by
  induction stream generalizing supply t with
  | nil => rfl
  | cons head stream ih =>
    cases head with
    | error e => rfl
    | ok block =>
      have unlimited : (supply.count block.length).limit.isUnlimited = true := instant
      have free' : (t.count block.length).limit.isUnlimited = true := free
      simp only [copyFrom, consume_unlimited instant, consume_unlimited free]
      exact ih unlimited free'

theorem scheduleFrom_unlimited (free : t.limit.isUnlimited = true) (now : Millis)
    (stream : List (Except Failure Bytes)) : ∀ x ∈ scheduleFrom t now stream, x.2 = now := by
  induction stream generalizing t with
  | nil => simp [scheduleFrom]
  | cons head stream ih =>
    cases head with
    | error e => simp [scheduleFrom]
    | ok block =>
      have free' : (t.count block.length).limit.isUnlimited = true := free
      simp only [scheduleFrom, consume_unlimited free, List.mem_cons, forall_eq_or_imp, true_and]
      exact ih free'

theorem copy_finished {limit : RateLimit} (h : 0 < limit.kilobytes) (now : Millis)
    (blocks : List Bytes) : ((⟨blocks.map .ok, .unlimited⟩ : Source).copy limit now).2 =
      wake (now * 1000000 + limit.allotment blocks.flatten.length) := by
  have done : (copyFrom ⟨.unlimited, now, 0⟩ ⟨limit, now, 0⟩ (⟨limit, now, 0⟩ : Throttle).due
      (blocks.map .ok)).2 = _ := copyFrom_due rfl h blocks
  rw [due_fresh] at done
  rw [copy, done, due, count, Nat.zero_add]

theorem getElem?_schedule {limit : RateLimit} (h : 0 < limit.kilobytes) (now : Millis)
    {content : Bytes} {k : Nat} (within : k * blockSize < content.length) :
    ((ofContent content limit).schedule now)[k]? =
      some (.ok ((content.drop (k * blockSize)).take blockSize), wake (now * 1000000 +
        limit.allotment (min ((k + 1) * blockSize) content.length))) := by
  have delivered := getElem?_scheduleFrom (t := ⟨limit, now, 0⟩) h (cut content) k
  rw [due_fresh, getElem?_cut content k within, flatten_take_cut, List.length_take] at delivered
  rw [schedule, ofContent, delivered, due, count, Nat.zero_add]
  rfl

/-- With a limit, reading blocks that are there at once is done at the first millisecond at which
the limit allows all of them, however they were cut. The stream of an upload hands over each block
at the first millisecond at which the limit allows the content up to the end of the block, so none
of the content is handed over before it is allowed. Without a limit neither takes any time. -/
theorem transfers_paced (limit : RateLimit) (now : Millis) :
    (0 < limit.kilobytes →
      (∀ blocks : List Bytes, IsLeast {t | limit.Allows now blocks.flatten.length t}
        ((⟨blocks.map .ok, .unlimited⟩ : Source).copy limit now).2) ∧
      (∀ blocks others : List Bytes, blocks.flatten.length = others.flatten.length →
        ((⟨blocks.map .ok, .unlimited⟩ : Source).copy limit now).2 =
          ((⟨others.map .ok, .unlimited⟩ : Source).copy limit now).2) ∧
      ∀ (content : Bytes) (k : Nat), k * 65536 < content.length → ∃ t,
        ((ofContent content limit).schedule now)[k]? =
            some (.ok ((content.drop (k * 65536)).take 65536), t) ∧
          IsLeast {t | limit.Allows now (min ((k + 1) * 65536) content.length) t} t ∧
          ∀ bytes ≤ min ((k + 1) * 65536) content.length, limit.Allows now bytes t) ∧
    (limit.kilobytes = 0 →
      (∀ stream, ((⟨stream, .unlimited⟩ : Source).copy limit now).2 = now) ∧
      ∀ content, ∀ x ∈ (ofContent content limit).schedule now, x.2 = now) := by
  constructor
  · intro positive
    refine ⟨fun blocks => ?_, fun blocks others same => ?_, fun content k within => ?_⟩
    · rw [copy_finished positive]
      exact limit.isLeast_allows now _
    · rw [copy_finished positive, copy_finished positive, same]
    · have first := limit.isLeast_allows now (min ((k + 1) * 65536) content.length)
      exact ⟨_, getElem?_schedule positive now within, first,
        fun _ part => first.1.fewer positive part⟩
  · intro none
    have free : limit.isUnlimited = true := by
      rw [RateLimit.isUnlimited, none]
      rfl
    exact ⟨fun stream => copyFrom_unlimited rfl free now stream,
      fun content => scheduleFrom_unlimited free now _⟩

/-- Three bytes at two kilobytes per second take a little less than one and a half milliseconds,
and one byte more than a block takes a little more than 32 seconds. -/
theorem transfers_paced_cuts :
    0 < (⟨2⟩ : RateLimit).kilobytes ∧
      ((⟨[.ok [1], .ok [], .ok [2, 3]], .unlimited⟩ : Source).copy ⟨2⟩ 5).2 = 7 ∧
      ((⟨[.ok [1, 2, 3]], .unlimited⟩ : Source).copy ⟨2⟩ 5).2 = 7 ∧
      1 * 65536 < (List.replicate 65537 7 : Bytes).length ∧
      ((ofContent (List.replicate 65537 7) ⟨2⟩).schedule 5)[1]? = some (.ok [7], 32006) := by
  have positive : 0 < (⟨2⟩ : RateLimit).kilobytes := by decide
  obtain ⟨finish, same, stream⟩ := (transfers_paced ⟨2⟩ 5).1 positive
  have cut := same [[1], [], [2, 3]] [[1, 2, 3]] rfl
  have whole : ((⟨[.ok [1, 2, 3]], .unlimited⟩ : Source).copy ⟨2⟩ 5).2 =
      wake (5 * 1000000 + (⟨2⟩ : RateLimit).allotment 3) :=
    (finish [[1, 2, 3]]).unique (RateLimit.isLeast_allows ⟨2⟩ 5 3)
  have three : (⟨2⟩ : RateLimit).allotment 3 = 1464844 := by decide +kernel
  rw [three] at whole
  have long : 1 * 65536 < (List.replicate 65537 7 : Bytes).length := by
    rw [List.length_replicate]
    decide
  obtain ⟨t, delivered, first, -⟩ := stream (List.replicate 65537 7) 1 long
  rw [List.length_replicate] at first
  have last : t = wake (5 * 1000000 + (⟨2⟩ : RateLimit).allotment 65537) :=
    first.unique (RateLimit.isLeast_allows ⟨2⟩ 5 65537)
  have all : (⟨2⟩ : RateLimit).allotment 65537 = 32000488281 := by decide +kernel
  rw [last, all, List.drop_replicate, List.take_replicate] at delivered
  exact ⟨positive, cut.trans whole, whole, long, delivered⟩

end Source

end ChunkStore
