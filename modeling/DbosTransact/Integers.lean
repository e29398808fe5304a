import Mathlib.Algebra.Order.Ring.Int

/-!
# Machine integers

The source counts in `i64` and `i32`. Where a sum or a cast may leave its type, the model wraps it
as a release build does, with `asI64` and `asI32`; a value that is in range keeps its place.
-/

namespace Dbos

/-- The two's-complement 64-bit integer a value wraps to. -/
def asI64 (n : ℤ) : ℤ := n.bmod (2 ^ 64)

/-- The two's-complement 32-bit integer a value wraps to. -/
def asI32 (n : ℤ) : ℤ := n.bmod (2 ^ 32)

def i64Max : ℤ := 2 ^ 63 - 1

def i64Min : ℤ := -2 ^ 63

def i32Min : ℤ := -2 ^ 31

def i32Max : ℤ := 2 ^ 31 - 1

theorem asI64_of_bounds {n : ℤ} (h₁ : -2 ^ 63 ≤ n) (h₂ : n < 2 ^ 63) : asI64 n = n := by
  rw [asI64, Int.bmod_eq_of_le] <;> omega

/-- A value keeps its place in 64 bits exactly when it is in range. -/
theorem asI64_eq_self_iff {n : ℤ} : asI64 n = n ↔ i64Min ≤ n ∧ n ≤ i64Max := by
  rw [i64Min, i64Max]
  refine ⟨fun h ↦ ?_, fun h ↦ asI64_of_bounds (by omega) (by omega)⟩
  have hle : asI64 n < (2 ^ 64 + 1) / 2 := Int.bmod_lt (by decide)
  have hge : -(2 ^ 64 / 2) ≤ asI64 n := Int.le_bmod (by decide)
  omega

/-- Wrapping makes nothing bigger. -/
theorem asI64_le {n : ℤ} (h : 0 ≤ n) : asI64 n ≤ n := by
  rw [asI64, Int.bmod_eq_emod]
  split <;> omega

theorem asI32_of_bounds {n : ℤ} (h₁ : i32Min ≤ n) (h₂ : n ≤ i32Max) : asI32 n = n := by
  rw [i32Min] at h₁
  rw [i32Max] at h₂
  rw [asI32, Int.bmod_eq_of_le] <;> omega

end Dbos
