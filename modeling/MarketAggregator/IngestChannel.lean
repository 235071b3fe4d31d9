import Mathlib.Data.List.Basic

/-!
# The bounded channel that drops its oldest item

A send never waits. When the queue is full the oldest item makes room and goes
back to the sender, and a closed channel refuses the item. A receive takes the
oldest item. Each operation is atomic here.
-/

namespace IngestChannel

universe u

structure Channel (T : Type u) where
  capacity : Nat
  positive : 0 < capacity
  queue : List T
  dropped : Nat
  closed : Bool

inductive SendOutcome (T : Type u) where
  | sent
  | droppedOldest (old : T)
  | closed (item : T)

namespace Channel

variable {T : Type u}

def bounded (capacity : Nat) (positive : 0 < capacity) : Channel T where
  capacity := capacity
  positive := positive
  queue := []
  dropped := 0
  closed := false

def send (c : Channel T) (item : T) : SendOutcome T × Channel T :=
  if c.closed then (.closed item, c)
  else if c.capacity ≤ c.queue.length then
    match c.queue with
    | [] => (.sent, { c with queue := [item] })
    | old :: rest =>
      (.droppedOldest old, { c with queue := rest ++ [item], dropped := c.dropped + 1 })
  else (.sent, { c with queue := c.queue ++ [item] })

def tryRecv (c : Channel T) : Option T × Channel T :=
  match c.queue with
  | [] => (none, c)
  | item :: rest => (some item, { c with queue := rest })

/-- What a send does to an open queue: the item is last and at most the first is gone. -/
theorem send_queue {c : Channel T} (opened : c.closed = false) (item : T) :
    (c.queue.length < c.capacity ∧ (c.send item).1 = .sent ∧
        (c.send item).2 = { c with queue := c.queue ++ [item] }) ∨
      ∃ old rest, c.queue = old :: rest ∧ c.capacity ≤ c.queue.length ∧
        (c.send item).1 = .droppedOldest old ∧ (c.send item).2 =
          { c with queue := rest ++ [item], dropped := c.dropped + 1 } := by
  rw [send]
  by_cases full : c.capacity ≤ c.queue.length
  · right
    cases queue : c.queue with
    | nil =>
      have positive := c.positive
      rw [queue, List.length_nil] at full
      omega
    | cons old rest =>
      rw [queue, List.length_cons] at full
      exact ⟨old, rest, rfl, full, by simp [opened, full], by simp [opened, full]⟩
  · left
    exact ⟨Nat.lt_of_not_le full, by simp [opened, full], by simp [opened, full]⟩

end Channel

end IngestChannel
