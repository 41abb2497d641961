import Mathlib.Data.List.Basic

/-!
# Segments of a list

Items come one by one, each with a key, and neighbours with the same key belong together. `addItem`
puts an item behind the last segment if the key is the same and starts a segment otherwise. A
segment has a first item, so there is no empty one.
-/

set_option autoImplicit false

namespace Wokcore.Lib

/-- Neighbouring items with one key. -/
structure Segment (κ β : Type*) where
  key : κ
  first : β
  rest : List β

variable {κ ι β : Type*}

namespace Segment

def items (s : Segment κ β) : List β := s.first :: s.rest

/-- One more item. -/
def extend (s : Segment κ β) (x : β) : Segment κ β := { s with rest := s.rest ++ [x] }

/-- The segment under another key. -/
def mapKey (f : κ → ι) (s : Segment κ β) : Segment ι β := ⟨f s.key, s.first, s.rest⟩

theorem items_extend (s : Segment κ β) (x : β) : (s.extend x).items = s.items ++ [x] := rfl

end Segment

variable [DecidableEq κ]

def addItem (segments : List (Segment κ β)) (key : κ) (x : β) : List (Segment κ β) :=
  match segments.getLast? with
  | none => [⟨key, x, []⟩]
  | some last =>
      if last.key = key then segments.dropLast ++ [last.extend x] else segments ++ [⟨key, x, []⟩]

theorem addItem_same (before : List (Segment κ β)) (last : Segment κ β) (x : β) :
    addItem (before ++ [last]) last.key x = before ++ [last.extend x] := by
  rw [addItem, List.getLast?_concat]
  simp only [if_true, List.dropLast_concat]

theorem addItem_new (before : List (Segment κ β)) {last : Segment κ β} {key : κ}
    (h : last.key ≠ key) (x : β) :
    addItem (before ++ [last]) key x = before ++ [last] ++ [⟨key, x, []⟩] := by
  rw [addItem, List.getLast?_concat]
  simp only [if_neg h]

end Wokcore.Lib
