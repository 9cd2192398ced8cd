import Mathlib.Algebra.Order.Field.Rat
import Mathlib.Algebra.Order.Field.Power
import Mathlib.Tactic.FieldSimp
import Mathlib.Tactic.GCongr
import Mathlib.Tactic.Linarith
import Mathlib.Tactic.Positivity
import Mathlib.Tactic.Ring

/-!
# Python floats: the arithmetic of the size estimate

The auto path computes its size estimate in Python floats, IEEE-754 doubles: `sum(sizes) / len(sizes)` and
`chunk_store_limit / 4` divide two ints and round the quotient once, and `concat_chunk_size *= combine_size`
converts the int to a float and rounds the product. A `PyFloat` is a double kept as its integer significand and
exponent, `man * 2 ^ exp` with `2 ^ 52 ≤ |man| < 2 ^ 53` (or zero), and every operation rounds the exact result to
nearest, ties to even (`roundFrac`), on integers, so that `decide` runs it. The exponent range is left out: with a
ceiling `L` the estimate stays below `L * c ^ 2 < 2 ^ 123`, and a size that is not zero is at least
`1 / len(sizes)`, far from overflow and from the subnormals.

* a rounding is zero exactly when what it rounds is (`roundFrac_eq_zero_iff`) and within `2⁻⁵³` of it, relatively
  (`abs_val_roundFrac_sub_le`); a quotient whose scaled form divides exactly is not changed (`val_roundFrac_of_dvd`),
  so an int below `2 ^ 53` converts exactly (`val_ofInt`);
* a float is determined by its value (`val_injective`), so the derived equality is Python's `==`; comparisons are
  decided on integers (`lt_iff_scaledMan`, `le_iff_scaledMan`);
* `r` products by an int below `2 ^ 53` stay within `(1 + 2⁻⁵³) ^ r - 1` of the exact product, relatively
  (`abs_val_iterate_mulInt_sub_le`).
-/

namespace GroupByAgg

/-! ## Rounding a quotient of naturals -/

/-- The number of binary digits of `n` (`0` for `0`), looking at `fuel` digits at most; `bitLength n n` is that of
`n`. -/
def bitLength : (fuel n : Nat) → Nat
  | 0, _ => 0
  | fuel + 1, n => if n = 0 then 0 else bitLength fuel (n / 2) + 1

theorem bitLength_zero (fuel : Nat) : bitLength fuel 0 = 0 := by
  cases fuel <;> rfl

/-- `n` has `b` digits: `2 ^ (b - 1) ≤ n < 2 ^ b`. -/
theorem bitLength_spec : ∀ {fuel n : Nat}, n ≤ fuel → 0 < n →
    2 ^ bitLength fuel n ≤ 2 * n ∧ n < 2 ^ bitLength fuel n
  | 0, _, h, hn => absurd hn (by omega)
  | fuel + 1, n, h, hn => by
    rw [bitLength, if_neg (by omega), pow_succ]
    rcases Nat.eq_zero_or_pos (n / 2) with h2 | h2
    · rw [h2, bitLength_zero]; omega
    · have := @bitLength_spec fuel (n / 2) (by omega) h2
      omega

/-- `n / d` rounded to the nearest natural number, ties to the even one. -/
def roundHalfEven (n d : Nat) : Nat :=
  if d < 2 * (n % d) ∨ 2 * (n % d) = d ∧ n / d % 2 = 1 then n / d + 1 else n / d

theorem div_le_roundHalfEven (n d : Nat) : n / d ≤ roundHalfEven n d := by
  unfold roundHalfEven; split <;> omega

theorem roundHalfEven_le_succ (n d : Nat) : roundHalfEven n d ≤ n / d + 1 := by
  unfold roundHalfEven; split <;> omega

theorem roundHalfEven_of_dvd {n d : Nat} (h : d ∣ n) : roundHalfEven n d = n / d := by
  simp only [roundHalfEven, Nat.mod_eq_zero_of_dvd h]
  split_ifs with hc
  · rcases hc with hc | ⟨rfl, hc⟩ <;> simp_all
  · rfl

/-- The rounded quotient is within one half of the quotient. -/
theorem abs_roundHalfEven_sub_le {d : Nat} (hd : 0 < d) (n : Nat) :
    |(roundHalfEven n d : ℚ) - n / d| ≤ 1 / 2 := by
  have hnear : 2 * (d * roundHalfEven n d) ≤ 2 * n + d ∧ 2 * n ≤ 2 * (d * roundHalfEven n d) + d := by
    have := Nat.div_add_mod n d
    have := Nat.mod_lt n hd
    unfold roundHalfEven
    split <;> (try rw [Nat.mul_succ]) <;> omega
  have hd' : (0 : ℚ) < d := by exact_mod_cast hd
  have h1 : (2 * (roundHalfEven n d * d) : ℚ) ≤ 2 * n + d := by
    rw [mul_comm (roundHalfEven n d : ℚ)]; exact_mod_cast hnear.1
  have h2 : (2 * n : ℚ) ≤ 2 * (roundHalfEven n d * d) + d := by
    rw [mul_comm (roundHalfEven n d : ℚ)]; exact_mod_cast hnear.2
  -- scaled by `d`, the bound is linear
  rw [← mul_le_mul_right hd', ← abs_of_pos hd', ← abs_mul, abs_of_pos hd', sub_mul, div_mul_cancel₀ _ hd'.ne',
    abs_sub_le_iff]
  exact ⟨by linarith only [h1], by linarith only [h2]⟩

/-- The exponents `(p, q)` that put `a * 2 ^ p / (d * 2 ^ q)` into `[2 ^ 52, 2 ^ 53)`: the digit counts of `a` and
`d` fix them up to one, and a comparison tells which. -/
def sigExps (a d : Nat) : Nat × Nat :=
  if 2 ^ 53 * (d * 2 ^ bitLength a a) ≤ a * 2 ^ (53 + bitLength d d) then (52 + bitLength d d, bitLength a a)
  else (53 + bitLength d d, bitLength a a)

theorem sigExps_bounds {a d : Nat} (ha : 0 < a) (hd : 0 < d) :
    2 ^ 52 * (d * 2 ^ (sigExps a d).2) ≤ a * 2 ^ (sigExps a d).1 ∧
      a * 2 ^ (sigExps a d).1 < 2 ^ 53 * (d * 2 ^ (sigExps a d).2) := by
  obtain ⟨ha1, ha2⟩ := bitLength_spec (le_refl a) ha
  obtain ⟨hd1, hd2⟩ := bitLength_spec (le_refl d) hd
  unfold sigExps
  split_ifs with h <;> dsimp only
  · constructor
    · have e1 : a * 2 ^ (53 + bitLength d d) = 2 * (a * 2 ^ (52 + bitLength d d)) := by
        rw [show 53 + bitLength d d = (52 + bitLength d d) + 1 by omega, pow_succ]; ring
      rw [e1, show (2 : Nat) ^ 53 = 2 * 2 ^ 52 by norm_num, Nat.mul_assoc] at h
      exact Nat.le_of_mul_le_mul_left h (by norm_num)
    · calc a * 2 ^ (52 + bitLength d d) < 2 ^ bitLength a a * 2 ^ (52 + bitLength d d) := by gcongr
        _ = 2 ^ 52 * 2 ^ bitLength d d * 2 ^ bitLength a a := by rw [pow_add]; ring
        _ ≤ 2 ^ 52 * (2 * d) * 2 ^ bitLength a a := by gcongr
        _ = 2 ^ 53 * (d * 2 ^ bitLength a a) := by ring
  · refine ⟨?_, Nat.lt_of_not_le h⟩
    calc 2 ^ 52 * (d * 2 ^ bitLength a a) ≤ 2 ^ 52 * (2 ^ bitLength d d * 2 ^ bitLength a a) := by gcongr
      _ ≤ 2 ^ 52 * (2 ^ bitLength d d * (2 * a)) := by gcongr
      _ = a * 2 ^ (53 + bitLength d d) := by rw [pow_add]; ring

/-- The significand of `a / d`: the quotient scaled by `sigExps`, rounded. -/
def significand (a d : Nat) : Nat := roundHalfEven (a * 2 ^ (sigExps a d).1) (d * 2 ^ (sigExps a d).2)

/-- A significand has 53 bits, or is `2 ^ 53` after a carry. -/
theorem significand_bounds {a d : Nat} (ha : 0 < a) (hd : 0 < d) :
    2 ^ 52 ≤ significand a d ∧ significand a d ≤ 2 ^ 53 := by
  obtain ⟨h1, h2⟩ := sigExps_bounds ha hd
  have hD : 0 < d * 2 ^ (sigExps a d).2 := Nat.mul_pos hd (Nat.two_pow_pos _)
  have hlo : 2 ^ 52 ≤ a * 2 ^ (sigExps a d).1 / (d * 2 ^ (sigExps a d).2) := (Nat.le_div_iff_mul_le hD).mpr (by linarith)
  have hhi : a * 2 ^ (sigExps a d).1 / (d * 2 ^ (sigExps a d).2) < 2 ^ 53 := (Nat.div_lt_iff_lt_mul hD).mpr h2
  exact ⟨hlo.trans (div_le_roundHalfEven _ _), (roundHalfEven_le_succ _ _).trans (by omega)⟩

/-! ## Floats -/

/-- A Python `float`: the double `man * 2 ^ exp`, normalised (`2 ^ 52 ≤ |man| < 2 ^ 53`, or `0` at exponent `0`), so
that a value has one representation; `-0.0` is the same float as `0.0`, as it is for `==`. -/
structure PyFloat where
  man : Int
  exp : Int
  normal : man = 0 ∧ exp = 0 ∨ 2 ^ 52 ≤ man.natAbs ∧ man.natAbs < 2 ^ 53
deriving DecidableEq

namespace PyFloat

/-- The rational a float denotes. -/
def val (x : PyFloat) : ℚ := x.man * 2 ^ x.exp

theorem natAbs_sign_mul {n : Int} (hn : n ≠ 0) (m : Nat) : (n.sign * m).natAbs = m := by
  rw [Int.natAbs_mul, Int.natAbs_sign_of_nonzero hn, one_mul, Int.natAbs_ofNat]

/-- `n / d * 2 ^ e` rounded to a double, to nearest and ties to even; `0` when `n` or `d` is. -/
def roundFrac (n : Int) (d : Nat) (e : Int) : PyFloat :=
  if h : n = 0 ∨ d = 0 then ⟨0, 0, .inl ⟨rfl, rfl⟩⟩
  else
    if hm : significand n.natAbs d = 2 ^ 53 then
      ⟨n.sign * (2 ^ 52 : Nat), e + (sigExps n.natAbs d).2 - (sigExps n.natAbs d).1 + 1,
        .inr (by rw [natAbs_sign_mul (not_or.mp h).1]; norm_num)⟩
    else
      ⟨n.sign * significand n.natAbs d, e + (sigExps n.natAbs d).2 - (sigExps n.natAbs d).1,
        .inr (by
          rw [natAbs_sign_mul (not_or.mp h).1]
          have := significand_bounds (Int.natAbs_pos.mpr (not_or.mp h).1) (Nat.pos_of_ne_zero (not_or.mp h).2)
          omega)⟩

/-- `float(n)`; with `OfNat`, the literal `10` is the float `10.0`. -/
def ofInt (n : Int) : PyFloat := roundFrac n 1 0

instance (n : Nat) : OfNat PyFloat n := ⟨ofInt n⟩

/-- `a / b` for Python ints: true division, the quotient rounded once. (`b = 0` raises `ZeroDivisionError`, which
the callers check first.) -/
def ofDiv (a : Int) (b : Nat) : PyFloat := roundFrac a b 0

/-- `x * y` for two floats. -/
def mul (x y : PyFloat) : PyFloat := roundFrac (x.man * y.man) 1 (x.exp + y.exp)

/-- `x * n` for a float and an int: `n` is converted to a float, and the product rounded. -/
def mulInt (x : PyFloat) (n : Int) : PyFloat := x.mul (ofInt n)

theorem zero_def : (0 : PyFloat) = ⟨0, 0, .inl ⟨rfl, rfl⟩⟩ := rfl

@[simp] theorem val_zero : (0 : PyFloat).val = 0 := by simp [zero_def, val]

theorem roundFrac_of_eq_zero {n : Int} {d : Nat} (h : n = 0 ∨ d = 0) (e : Int) : roundFrac n d e = 0 := by
  rw [roundFrac, dif_pos h, zero_def]

/-- What a rounding denotes: the significand, with the sign of `n`, at the exponent `sigExps` gives. -/
theorem val_roundFrac {n : Int} {d : Nat} (hn : n ≠ 0) (hd : d ≠ 0) (e : Int) :
    (roundFrac n d e).val =
      n.sign * significand n.natAbs d * 2 ^ (e + (sigExps n.natAbs d).2 - (sigExps n.natAbs d).1) := by
  rw [roundFrac, dif_neg (not_or.mpr ⟨hn, hd⟩)]
  split_ifs with hm
  · simp only [val, hm, Int.cast_mul, Int.cast_natCast, Nat.cast_pow, Nat.cast_ofNat]
    rw [zpow_add₀ two_ne_zero, zpow_one]
    ring
  · simp [val]

theorem roundFrac_eq_zero_iff {n : Int} {d : Nat} {e : Int} : roundFrac n d e = 0 ↔ n = 0 ∨ d = 0 := by
  refine ⟨fun h => ?_, fun h => roundFrac_of_eq_zero h e⟩
  by_contra hnd
  have hv := congrArg val h
  rw [val_zero, val_roundFrac (not_or.mp hnd).1 (not_or.mp hnd).2] at hv
  have hm := (significand_bounds (Int.natAbs_pos.mpr (not_or.mp hnd).1)
    (Nat.pos_of_ne_zero (not_or.mp hnd).2)).1
  have hs : (n.sign : ℚ) ≠ 0 := by exact_mod_cast Int.sign_eq_zero_iff_zero.not.mpr (not_or.mp hnd).1
  have hm0 : (significand n.natAbs d : ℚ) ≠ 0 := by exact_mod_cast (Nat.two_pow_pos 52).trans_le hm |>.ne'
  exact mul_ne_zero (mul_ne_zero hs hm0) (zpow_ne_zero _ two_ne_zero) hv

theorem cast_eq_sign_mul_natAbs (n : Int) : (n : ℚ) = n.sign * n.natAbs := by
  have h := congrArg (Int.cast : ℤ → ℚ) (Int.sign_mul_natAbs n).symm
  push_cast at h
  rwa [Nat.cast_natAbs, Int.cast_abs]

/-- The exact quotient, at the scale of its significand. -/
theorem exact_eq_scaled (σ : ℚ) (a d : Nat) (e : Int) (p q : Nat) :
    σ * a / d * 2 ^ e = σ * ((a * 2 ^ p : Nat) / (d * 2 ^ q : Nat)) * 2 ^ (e + q - p) := by
  push_cast
  rw [mul_div_mul_comm, ← zpow_natCast, ← zpow_natCast, ← zpow_sub₀ two_ne_zero, mul_assoc, mul_assoc,
    ← zpow_add₀ two_ne_zero, show (p : ℤ) - q + (e + q - p) = e by ring]
  ring

/-- The significand is within `2⁻⁵³` of the scaled quotient, relatively: at most one half off a quotient of at
least `2 ^ 52`. -/
theorem abs_significand_sub_le {a d : Nat} (ha : 0 < a) (hd : 0 < d) :
    |(significand a d : ℚ) - (a * 2 ^ (sigExps a d).1 : Nat) / (d * 2 ^ (sigExps a d).2 : Nat)| ≤
      |((a * 2 ^ (sigExps a d).1 : Nat) : ℚ) / (d * 2 ^ (sigExps a d).2 : Nat)| / 2 ^ 53 := by
  obtain ⟨h1, -⟩ := sigExps_bounds ha hd
  have hD : 0 < d * 2 ^ (sigExps a d).2 := Nat.mul_pos hd (Nat.two_pow_pos _)
  have hlo : (2 : ℚ) ^ 52 ≤ ((a * 2 ^ (sigExps a d).1 : Nat) : ℚ) / (d * 2 ^ (sigExps a d).2 : Nat) := by
    rw [le_div_iff₀ (by exact_mod_cast hD)]; exact_mod_cast h1
  rw [abs_of_pos (lt_of_lt_of_le (by positivity) hlo)]
  calc _ ≤ 1 / 2 := abs_roundHalfEven_sub_le hD _
    _ = 2 ^ 52 / 2 ^ 53 := by norm_num
    _ ≤ _ := by gcongr

/-- **A rounding is within `2⁻⁵³` of what it rounds**, relatively. -/
theorem abs_val_roundFrac_sub_le (n : Int) {d : Nat} (hd : d ≠ 0) (e : Int) :
    |(roundFrac n d e).val - n / d * 2 ^ e| ≤ |(n : ℚ) / d * 2 ^ e| / 2 ^ 53 := by
  rcases eq_or_ne n 0 with rfl | hn
  · simp [roundFrac_of_eq_zero (.inl rfl)]
  have hsgn : |(n.sign : ℚ)| = 1 := by
    rw [← Int.cast_abs, Int.abs_eq_natAbs, Int.natAbs_sign_of_nonzero hn]; rfl
  rw [val_roundFrac hn hd, cast_eq_sign_mul_natAbs n, exact_eq_scaled _ _ d e (sigExps n.natAbs d).1
    (sigExps n.natAbs d).2, ← sub_mul, ← mul_sub, abs_mul, abs_mul, abs_mul, abs_mul, hsgn, one_mul, one_mul,
    mul_div_right_comm]
  exact mul_le_mul_of_nonneg_right (abs_significand_sub_le (Int.natAbs_pos.mpr hn) (Nat.pos_of_ne_zero hd))
    (abs_nonneg _)

/-- A quotient whose scaled form divides exactly is represented as it is. -/
theorem val_roundFrac_of_dvd {n : Int} {d : Nat} (hd : d ≠ 0) (e : Int)
    (h : d * 2 ^ (sigExps n.natAbs d).2 ∣ n.natAbs * 2 ^ (sigExps n.natAbs d).1) :
    (roundFrac n d e).val = n / d * 2 ^ e := by
  rcases eq_or_ne n 0 with rfl | hn
  · simp [roundFrac_of_eq_zero (.inl rfl)]
  rw [val_roundFrac hn hd, cast_eq_sign_mul_natAbs n, exact_eq_scaled _ _ d e (sigExps n.natAbs d).1
    (sigExps n.natAbs d).2, significand,
    roundHalfEven_of_dvd h, Nat.cast_div h (by positivity)]

/-! ## Python's operations -/

/-- An int below `2 ^ 53` converts to a float exactly. -/
theorem val_ofInt {n : Int} (hn : n.natAbs < 2 ^ 53) : (ofInt n).val = n := by
  rcases eq_or_ne n 0 with rfl | h0
  · simp [ofInt, roundFrac_of_eq_zero]
  have hl := (bitLength_spec (le_refl n.natAbs) (Int.natAbs_pos.mpr h0)).1
  have hb : bitLength n.natAbs n.natAbs ≤ 53 := by
    by_contra hc
    have : 2 ^ 54 ≤ 2 ^ bitLength n.natAbs n.natAbs := Nat.pow_le_pow_right (by norm_num) (by omega)
    omega
  have hdvd : 1 * 2 ^ (sigExps n.natAbs 1).2 ∣ n.natAbs * 2 ^ (sigExps n.natAbs 1).1 := by
    rw [one_mul]
    refine Dvd.dvd.mul_left (Nat.pow_dvd_pow 2 ?_) _
    have h1 : bitLength 1 1 = 1 := rfl
    unfold sigExps; split_ifs <;> dsimp only <;> omega
  rw [ofInt, val_roundFrac_of_dvd one_ne_zero 0 hdvd]
  simp

theorem ofDiv_eq_zero_iff {a : Int} {b : Nat} (hb : b ≠ 0) : ofDiv a b = 0 ↔ a = 0 := by
  simp [ofDiv, roundFrac_eq_zero_iff, hb]

theorem val_mul_exact (x y : PyFloat) : ((x.man * y.man : Int) : ℚ) / (1 : Nat) * 2 ^ (x.exp + y.exp) = x.val * y.val := by
  rw [zpow_add₀ two_ne_zero]; simp [val]; ring

theorem abs_val_mul_sub_le (x y : PyFloat) : |(x.mul y).val - x.val * y.val| ≤ |x.val * y.val| / 2 ^ 53 := by
  have := abs_val_roundFrac_sub_le (x.man * y.man) one_ne_zero (x.exp + y.exp)
  rwa [val_mul_exact] at this

theorem man_eq_zero_iff {x : PyFloat} : x.man = 0 ↔ x = 0 := by
  refine ⟨fun h => ?_, fun h => h ▸ rfl⟩
  obtain ⟨m, e, hx⟩ := x
  simp only at h
  subst h
  rcases hx with ⟨-, rfl⟩ | ⟨h, -⟩
  · rfl
  · simp at h

theorem mul_eq_zero_iff {x y : PyFloat} : x.mul y = 0 ↔ x = 0 ∨ y = 0 := by
  rw [mul, roundFrac_eq_zero_iff, ← man_eq_zero_iff, ← man_eq_zero_iff]
  simp

theorem ofInt_eq_zero_iff {n : Int} : ofInt n = 0 ↔ n = 0 := by
  simp [ofInt, roundFrac_eq_zero_iff]

theorem mulInt_eq_zero_iff {x : PyFloat} {n : Int} : x.mulInt n = 0 ↔ x = 0 ∨ n = 0 := by
  rw [mulInt, mul_eq_zero_iff, ofInt_eq_zero_iff]

/-- **`r` products by an int**, each rounded: within `(1 + 2⁻⁵³) ^ r - 1` of the exact product, relatively, when
the int converts exactly. -/
theorem abs_val_iterate_mulInt_sub_le {c : Int} (hc : c.natAbs < 2 ^ 53) (x : PyFloat) :
    ∀ r : Nat, |((·.mulInt c)^[r] x).val - x.val * c ^ r| ≤ ((1 + 1 / 2 ^ 53) ^ r - 1) * |x.val * c ^ r|
  | 0 => by simp
  | r + 1 => by
    rw [Function.iterate_succ_apply']
    set y := (·.mulInt c)^[r] x
    have ih := abs_val_iterate_mulInt_sub_le hc x r
    have hround : |(y.mulInt c).val - y.val * c| ≤ |y.val * c| / 2 ^ 53 := by
      have := abs_val_mul_sub_le y (ofInt c)
      rwa [val_ofInt hc] at this
    have hscale : |y.val * c - x.val * c ^ (r + 1)| = |(c : ℚ)| * |y.val - x.val * c ^ r| := by
      rw [← abs_mul]; ring_nf
    have hA : |x.val * c ^ (r + 1)| = |(c : ℚ)| * |x.val * c ^ r| := by
      rw [← abs_mul]; ring_nf
    have hy : |y.val * c| ≤ |x.val * c ^ (r + 1)| + |(c : ℚ)| * |y.val - x.val * c ^ r| := by
      rw [← hscale]
      calc |y.val * c| = |x.val * c ^ (r + 1) + (y.val * c - x.val * c ^ (r + 1))| := by ring_nf
        _ ≤ _ := abs_add _ _
    have hE : (0 : ℚ) ≤ (1 + 1 / 2 ^ 53) ^ r - 1 := sub_nonneg.mpr (one_le_pow₀ (by norm_num))
    have hcA : |(c : ℚ)| * |y.val - x.val * c ^ r| ≤ ((1 + 1 / 2 ^ 53) ^ r - 1) * |x.val * c ^ (r + 1)| := by
      rw [hA, mul_left_comm]
      exact mul_le_mul_of_nonneg_left ih (abs_nonneg _)
    calc |(y.mulInt c).val - x.val * c ^ (r + 1)|
        ≤ |(y.mulInt c).val - y.val * c| + |y.val * c - x.val * c ^ (r + 1)| := abs_sub_le _ _ _
      _ ≤ (|x.val * c ^ (r + 1)| + |(c : ℚ)| * |y.val - x.val * c ^ r|) / 2 ^ 53 +
          |(c : ℚ)| * |y.val - x.val * c ^ r| := by
        rw [hscale]; gcongr; exact hround.trans (by gcongr)
      _ ≤ (|x.val * c ^ (r + 1)| + ((1 + 1 / 2 ^ 53) ^ r - 1) * |x.val * c ^ (r + 1)|) / 2 ^ 53 +
          ((1 + 1 / 2 ^ 53) ^ r - 1) * |x.val * c ^ (r + 1)| := by gcongr
      _ = ((1 + 1 / 2 ^ 53) ^ (r + 1) - 1) * |x.val * c ^ (r + 1)| := by ring

/-! ## Comparisons -/

instance : LT PyFloat := ⟨fun x y => x.val < y.val⟩

instance : LE PyFloat := ⟨fun x y => x.val ≤ y.val⟩

theorem lt_def {x y : PyFloat} : x < y ↔ x.val < y.val := Iff.rfl

theorem le_def {x y : PyFloat} : x ≤ y ↔ x.val ≤ y.val := Iff.rfl

/-- The significand of `x` over an exponent `e ≤ x.exp`. -/
def scaledMan (x : PyFloat) (e : Int) : Int := x.man * (2 ^ (x.exp - e).toNat : Nat)

theorem val_eq_scaledMan (x : PyFloat) {e : Int} (h : e ≤ x.exp) : x.val = x.scaledMan e * 2 ^ e := by
  have hk : ((x.exp - e).toNat : Int) = x.exp - e := Int.toNat_of_nonneg (by omega)
  rw [val, scaledMan, Int.cast_mul, Int.cast_natCast, Nat.cast_pow, Nat.cast_ofNat, mul_assoc, ← zpow_natCast, hk,
    ← zpow_add₀ two_ne_zero, sub_add_cancel]

theorem lt_iff_scaledMan {x y : PyFloat} :
    x < y ↔ x.scaledMan (min x.exp y.exp) < y.scaledMan (min x.exp y.exp) := by
  rw [lt_def, val_eq_scaledMan x (min_le_left _ _), val_eq_scaledMan y (min_le_right _ _),
    mul_lt_mul_right (zpow_pos two_pos _), Int.cast_lt]

theorem le_iff_scaledMan {x y : PyFloat} :
    x ≤ y ↔ x.scaledMan (min x.exp y.exp) ≤ y.scaledMan (min x.exp y.exp) := by
  rw [le_def, val_eq_scaledMan x (min_le_left _ _), val_eq_scaledMan y (min_le_right _ _),
    mul_le_mul_right (zpow_pos two_pos _), Int.cast_le]

instance (x y : PyFloat) : Decidable (x < y) := decidable_of_iff _ lt_iff_scaledMan.symm

instance (x y : PyFloat) : Decidable (x ≤ y) := decidable_of_iff _ le_iff_scaledMan.symm

/-- Two floats, one over the other's exponent, with equal significands there are equal. -/
theorem eq_of_man_eq {x y : PyFloat} (hle : x.exp ≤ y.exp) (h : x.man = y.scaledMan x.exp) : x = y := by
  obtain ⟨mx, ex, hx⟩ := x
  obtain ⟨my, ey, hy⟩ := y
  simp only [scaledMan] at hle h
  have habs : mx.natAbs = my.natAbs * 2 ^ (ey - ex).toNat := by
    rw [h, Int.natAbs_mul, Int.natAbs_ofNat]
  have hk : (ey - ex).toNat = 0 ∨ my = 0 := by
    by_contra hk
    push_neg at hk
    have h2 : 2 ≤ 2 ^ (ey - ex).toNat := by
      calc 2 = 2 ^ 1 := rfl
        _ ≤ 2 ^ (ey - ex).toNat := Nat.pow_le_pow_right (by norm_num) (by omega)
    have hmy : 2 ^ 52 ≤ my.natAbs := by
      rcases hy with ⟨h, -⟩ | hy
      · exact absurd h hk.2
      · exact hy.1
    have hmx : mx.natAbs < 2 ^ 53 := by
      rcases hx with ⟨rfl, -⟩ | hx
      · simp
      · exact hx.2
    have : my.natAbs * 2 ≤ mx.natAbs := habs ▸ Nat.mul_le_mul_left _ h2
    omega
  rcases hk with hk | rfl
  · rw [hk, pow_zero, Nat.cast_one, mul_one] at h
    subst h
    obtain rfl : ey = ex := by omega
    rfl
  · simp only [zero_mul] at h
    subst h
    have hx0 : ex = 0 := by
      rcases hx with ⟨-, h⟩ | ⟨h, -⟩
      · exact h
      · simp at h
    have hy0 : ey = 0 := by
      rcases hy with ⟨-, h⟩ | ⟨h, -⟩
      · exact h
      · simp at h
    subst hx0 hy0
    rfl

/-- **A float is determined by its value**: the derived equality is Python's `==`. -/
theorem val_injective : Function.Injective val := by
  intro x y h
  have hs : x.scaledMan (min x.exp y.exp) = y.scaledMan (min x.exp y.exp) := by
    have h' := h
    rw [val_eq_scaledMan x (min_le_left _ _), val_eq_scaledMan y (min_le_right _ _)] at h'
    exact_mod_cast mul_right_cancel₀ (zpow_ne_zero _ two_ne_zero) h'
  rcases le_total x.exp y.exp with hle | hle
  · rw [min_eq_left hle] at hs
    exact eq_of_man_eq hle (by simpa [scaledMan] using hs)
  · rw [min_eq_right hle] at hs
    exact (eq_of_man_eq hle (by simpa [scaledMan] using hs.symm)).symm

theorem not_lt_iff {x y : PyFloat} : ¬ x < y ↔ y ≤ x := show ¬ x.val < y.val ↔ y.val ≤ x.val from not_lt

theorem lt_or_eq_of_le_val {x y : PyFloat} (h : x ≤ y) : x < y ∨ x = y :=
  (show x.val < y.val ∨ x.val = y.val from lt_or_eq_of_le h).imp id (fun h => val_injective h)

end PyFloat

end GroupByAgg
