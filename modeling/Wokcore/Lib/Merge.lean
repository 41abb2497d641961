import Mathlib.Algebra.BigOperators.Group.List.Basic
import Mathlib.Tactic.Ring

/-!
# Merging adjacent entries of one key

`mergeAdjacent join` joins neighbours of a list of keyed entries that have the same key. Merging is
there to forget how one key's contents were cut into entries, and two things about a list survive
it: which keys it has, and for each key any measure of the contents that adds up under `join`.
-/

set_option autoImplicit false

namespace Wokcore.Lib

variable {κ τ : Type*} [DecidableEq κ]

/-- An entry in front of an already merged list. -/
def mergeInto (join : τ → τ → τ) (e : κ × τ) : List (κ × τ) → List (κ × τ)
  | [] => [e]
  | f :: rest => if e.1 = f.1 then (e.1, join e.2 f.2) :: rest else e :: f :: rest

/-- Neighbours of equal key joined. -/
def mergeAdjacent (join : τ → τ → τ) : List (κ × τ) → List (κ × τ)
  | [] => []
  | e :: rest => mergeInto join e (mergeAdjacent join rest)

theorem mem_keys_mergeInto (join : τ → τ → τ) (e : κ × τ) (l : List (κ × τ)) (k : κ) :
    k ∈ (mergeInto join e l).map Prod.fst ↔ k = e.1 ∨ k ∈ l.map Prod.fst := by
  cases l with
  | nil => simp [mergeInto]
  | cons f rest =>
    by_cases h : e.1 = f.1 <;> simp [mergeInto, h]

theorem mem_keys_mergeAdjacent (join : τ → τ → τ) (l : List (κ × τ)) (k : κ) :
    k ∈ (mergeAdjacent join l).map Prod.fst ↔ k ∈ l.map Prod.fst := by
  induction l with
  | nil => rfl
  | cons e rest ih => rw [mergeAdjacent, mem_keys_mergeInto, ih, List.map_cons, List.mem_cons]

/-- How much a list holds under one key. -/
def sizeAt (size : τ → Nat) (k : κ) (l : List (κ × τ)) : Nat :=
  (l.map fun e => if e.1 = k then size e.2 else 0).sum

section Size

variable (size : τ → Nat) (k : κ)

@[simp] theorem sizeAt_nil : sizeAt size k [] = 0 := rfl

@[simp] theorem sizeAt_cons (e : κ × τ) (l : List (κ × τ)) :
    sizeAt size k (e :: l) = (if e.1 = k then size e.2 else 0) + sizeAt size k l := rfl

@[simp] theorem sizeAt_append (l m : List (κ × τ)) :
    sizeAt size k (l ++ m) = sizeAt size k l + sizeAt size k m := by
  simp [sizeAt]

variable {size} {join : τ → τ → τ} (hjoin : ∀ a b, size (join a b) = size a + size b)

include hjoin

theorem sizeAt_mergeInto (e : κ × τ) (l : List (κ × τ)) :
    sizeAt size k (mergeInto join e l) = sizeAt size k (e :: l) := by
  cases l with
  | nil => rfl
  | cons f rest =>
    by_cases h : e.1 = f.1
    · by_cases hk : f.1 = k
      · simp [mergeInto, h, hk, hjoin, Nat.add_assoc]
      · simp [mergeInto, h, hk]
    · simp [mergeInto, h]

theorem sizeAt_mergeAdjacent (l : List (κ × τ)) :
    sizeAt size k (mergeAdjacent join l) = sizeAt size k l := by
  induction l with
  | nil => rfl
  | cons e rest ih => rw [mergeAdjacent, sizeAt_mergeInto k hjoin, sizeAt_cons, sizeAt_cons, ih]

end Size

end Wokcore.Lib
