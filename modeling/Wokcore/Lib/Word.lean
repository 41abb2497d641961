import Mathlib.Algebra.GroupWithZero.Nat
import Mathlib.Order.Defs.LinearOrder

/-!
# Bounded unsigned words

Unsigned machine integers are natural numbers here, and the two ways an operation can leave the
range are named: `satAdd`/`satMul` stop at the largest word, `wrapAdd` starts again at zero. A
word type is given by its largest value `top`, so one set of lemmas serves every width.
-/

set_option autoImplicit false

namespace Wokcore.Lib

/-- The largest `u8`. -/
def u8Max : Nat := 2 ^ 8 - 1

/-- The largest `u32`. -/
def u32Max : Nat := 2 ^ 32 - 1

/-- The largest `i64`. -/
def i64Max : Nat := 2 ^ 63 - 1

/-- The largest `u64`. -/
def u64Max : Nat := 2 ^ 64 - 1

/-- Addition that stops at `top`. -/
def satAdd (top a b : Nat) : Nat := min (a + b) top

/-- Multiplication that stops at `top`. -/
def satMul (top a b : Nat) : Nat := min (a * b) top

/-- Addition that starts again at zero past `top`. -/
def wrapAdd (top a b : Nat) : Nat := (a + b) % (top + 1)

/-- Addition that answers `none` past `top`. -/
def checkedAdd (top a b : Nat) : Option Nat := if a + b ≤ top then some (a + b) else none

theorem satAdd_le (top a b : Nat) : satAdd top a b ≤ top := by
  unfold satAdd; omega

theorem satAdd_satAdd (top a b c : Nat) : satAdd top (satAdd top a b) c = satAdd top a (b + c) := by
  unfold satAdd; omega

theorem satAdd_le_satAdd (top a b c : Nat) : satAdd top a b ≤ satAdd top a (b + c) := by
  unfold satAdd; omega

variable {top a b : Nat}

theorem satAdd_of_le (h : a + b ≤ top) : satAdd top a b = a + b := by
  unfold satAdd; omega

theorem satAdd_pos (ht : 0 < top) (hb : 0 < b) : 0 < satAdd top a b := by
  unfold satAdd; omega

theorem wrapAdd_of_le (h : a + b ≤ top) : wrapAdd top a b = a + b := by
  unfold wrapAdd
  exact Nat.mod_eq_of_lt (by omega)

theorem checkedAdd_eq_some {c : Nat} : checkedAdd top a b = some c ↔ a + b ≤ top ∧ c = a + b := by
  unfold checkedAdd
  split
  · next h => simp [h, eq_comm]
  · next h => simp [h]

end Wokcore.Lib
