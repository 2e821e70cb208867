import Mathlib.Tactic.Linarith

/-!
# Signed 32-bit words

The kernel's `int` and `atomic_t` counters are 32-bit two's complement words whose
arithmetic wraps. A counter is kept as the integer its word denotes; `wrap` reduces the
exact result of an operation to that integer. Sums computed word by word agree with exact
sums modulo `2 ^ 32`, and exactly while the exact value stays in the word's range.
-/

namespace Word32

/-- The integer denoted by the low 32 bits of the two's complement of a value. -/
def wrap (value : ℤ) : ℤ := Int.bmod value (2 ^ 32)

/-- Values of a signed 32-bit word. -/
def InRange (value : ℤ) : Prop := -2 ^ 31 ≤ value ∧ value < 2 ^ 31

/-- Wrapping always yields a value of the word. -/
theorem wrap_inRange (value : ℤ) : InRange (wrap value) := by
  have lower := Int.le_bmod (x := value) (m := 2 ^ 32) (by norm_num)
  have upper := Int.bmod_lt (x := value) (m := 2 ^ 32) (by norm_num)
  constructor <;> simp only [wrap] <;> omega

/-- A value of the word is kept. -/
theorem wrap_eq_self {value : ℤ} (range : InRange value) : wrap value = value := by
  obtain ⟨lower, upper⟩ := range
  exact Int.bmod_eq_of_le (by omega) (by omega)

/-- Wrapping an operand first does not change the wrapped sum. -/
theorem wrap_add_wrap (left right : ℤ) : wrap (wrap left + right) = wrap (left + right) := by
  simp [wrap]

/-- Wrapping takes away a multiple of the word size. -/
theorem dvd_wrap_sub (value : ℤ) : (2 ^ 32 : ℤ) ∣ wrap value - value := by
  have same : wrap value % (2 ^ 32 : ℕ) = value % (2 ^ 32 : ℕ) := Int.bmod_emod
  omega

/-- A value of the word that differs from a result by a multiple of the word size is that result,
wrapped. -/
theorem eq_wrap_of_dvd {word value : ℤ} (range : InRange word)
    (congruent : (2 ^ 32 : ℤ) ∣ word - value) : word = wrap value := by
  have wrapped := wrap_inRange value
  have same := dvd_wrap_sub value
  simp only [InRange] at range wrapped
  omega

end Word32
