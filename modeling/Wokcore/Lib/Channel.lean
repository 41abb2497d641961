import Mathlib.Data.List.Basic

/-!
# A bounded channel

Any number of senders put items into a channel of a fixed capacity, and one receiver takes them out
in order. A sender does not wait: an item that finds the channel full, or closed, is refused. A
closed channel takes no further items, and its receiver still gets those that are in it.

`Carried accepted received c` is the law of the channel: what was accepted is what was received,
followed by what still waits. Each operation keeps it, and when the receiver is told that the
channel has come to its end, it has received everything.
-/

set_option autoImplicit false

namespace Wokcore.Lib

/-- The items that wait, and whether the receiver has closed the channel. -/
structure Channel (α : Type*) where
  queue : List α
  closed : Bool

namespace Channel

variable {α : Type*} {capacity : Nat} {c c' : Channel α} {a : α} {accepted received : List α}

inductive SendError where
  | full
  | closed
deriving DecidableEq

/-- What the receiver gets. -/
inductive Received (α : Type*) where
  | item (a : α) (rest : Channel α)
  | finished
  | waiting

def trySend (capacity : Nat) (c : Channel α) (a : α) : Except SendError (Channel α) :=
  if c.closed then .error .closed
  else if capacity ≤ c.queue.length then .error .full
  else .ok { c with queue := c.queue ++ [a] }

def recv (c : Channel α) : Received α :=
  match c.queue with
  | a :: rest => .item a { c with queue := rest }
  | [] => if c.closed then .finished else .waiting

def close (c : Channel α) : Channel α := { c with closed := true }

/-- What was accepted is what was received and what waits. -/
def Carried (accepted received : List α) (c : Channel α) : Prop := accepted = received ++ c.queue

theorem trySend_eq_ok : trySend capacity c a = .ok c' ↔
    c.closed = false ∧ c.queue.length < capacity ∧ c' = { c with queue := c.queue ++ [a] } := by
  unfold trySend
  split
  · next hclosed => simp [hclosed]
  · next hopen =>
    split
    · next hfull =>
      have hnot : ¬c.queue.length < capacity := Nat.not_lt.mpr hfull
      simp [hnot]
    · next hroom =>
      have hlt : c.queue.length < capacity := Nat.lt_of_not_le hroom
      simp [hopen, hlt, eq_comm]

theorem recv_eq_item : recv c = .item a c' ↔ c.queue = a :: c'.queue ∧ c'.closed = c.closed := by
  obtain ⟨queue, closed⟩ := c
  obtain ⟨queue', closed'⟩ := c'
  cases queue with
  | nil => cases closed <;> simp [recv]
  | cons b rest => simp [recv, and_assoc, eq_comm]

theorem recv_eq_finished : recv c = .finished ↔ c.queue = [] ∧ c.closed = true := by
  obtain ⟨queue, closed⟩ := c
  cases queue with
  | nil => cases closed <;> simp [recv]
  | cons b rest => simp [recv]

namespace Carried

variable (h : Carried accepted received c)
include h

theorem trySend (hsend : c.trySend capacity a = .ok c') :
    Carried (accepted ++ [a]) received c' := by
  obtain ⟨-, -, rfl⟩ := trySend_eq_ok.mp hsend
  rw [Carried] at h
  rw [Carried, h, List.append_assoc]

theorem recv (hrecv : c.recv = .item a c') : Carried accepted (received ++ [a]) c' := by
  obtain ⟨hqueue, -⟩ := recv_eq_item.mp hrecv
  rw [Carried, hqueue] at h
  rw [Carried, h, List.append_assoc, List.singleton_append]

theorem close : Carried accepted received c.close := h

/-- A receiver at the end has received everything. -/
theorem finished (hrecv : c.recv = .finished) : received = accepted := by
  obtain ⟨hempty, -⟩ := recv_eq_finished.mp hrecv
  rw [Carried, hempty, List.append_nil] at h
  exact h.symm

end Carried

end Channel

end Wokcore.Lib
