import Mathlib.Data.Int.Log
import Mathlib.Data.Rat.Floor
import Mathlib.Tactic.Linarith
import Mathlib.Tactic.FieldSimp
import Mathlib.Tactic.Positivity
import Mathlib.Tactic.Ring

/-!
# Numbers of 64 bits with a binary point

A double is a rational number of 53 bits and a scale.  A sum is rounded to the nearest
double, of two to the even one, and is infinite from 2^1024 on.  There are two infinities
and a value that is no number; the sign of a zero is left out.

A rational number that is a double is not changed by rounding (`roundTo_eq_self`), so a sum
is exact where its value is a double (`add_exact`).
-/

namespace Binary64

/-- The values of the doubles. -/
def IsDouble (q : ℚ) : Prop :=
  |q| < 2 ^ 1024 ∧ ∃ m e : ℤ, |m| < 2 ^ 53 ∧ -1074 ≤ e ∧ q = m * (2 : ℚ) ^ e

/-- The nearest integer, of two the even one. -/
def roundHalfEven (q : ℚ) : ℤ :=
  let n := ⌊q⌋
  let rest := q - n
  if rest < 1 / 2 then n else if 1 / 2 < rest then n + 1 else if n % 2 = 0 then n else n + 1

/-- The scale that leaves 53 bits in front of the point. -/
def scale (q : ℚ) : ℤ := max (Int.log 2 |q| - 52) (-1074)

def roundTo (q : ℚ) : ℚ := roundHalfEven (q / (2 : ℚ) ^ scale q) * (2 : ℚ) ^ scale q

/-! ### Rounding to an integer -/

theorem le_roundHalfEven {n : ℤ} {q : ℚ} (h : (n : ℚ) ≤ q) : n ≤ roundHalfEven q := by
  have hfloor : n ≤ ⌊q⌋ := Int.le_floor.mpr h
  simp only [roundHalfEven]
  split_ifs <;> omega

theorem roundHalfEven_intCast (n : ℤ) : roundHalfEven (n : ℚ) = n := by
  simp [roundHalfEven]

theorem roundHalfEven_le {n : ℤ} {q : ℚ} (h : q ≤ n) : roundHalfEven q ≤ n := by
  rcases h.lt_or_eq with hlt | rfl
  · have hfloor : ⌊q⌋ < n := Int.floor_lt.mpr hlt
    simp only [roundHalfEven]
    split_ifs <;> omega
  · exact (roundHalfEven_intCast n).le

theorem abs_roundHalfEven_le {n : ℤ} {q : ℚ} (h : |q| ≤ n) : |roundHalfEven q| ≤ n := by
  obtain ⟨hlow, hhigh⟩ := abs_le.mp h
  exact abs_le.mpr ⟨le_roundHalfEven (by push_cast; exact hlow), roundHalfEven_le hhigh⟩

/-! ### Rounding to a double -/

theorem abs_lt_zpow_scale (q : ℚ) : |q| < (2 : ℚ) ^ (53 + scale q) := by
  have hlog := Int.lt_zpow_succ_log_self (b := 2) one_lt_two |q|
  have hle : Int.log 2 |q| + 1 ≤ 53 + scale q := by
    have hmax := le_max_left (Int.log 2 |q| - 52) (-1074)
    simp only [scale]
    omega
  exact lt_of_lt_of_le (by exact_mod_cast hlog) (zpow_le_zpow_right₀ one_le_two hle)

theorem abs_div_scale_lt (q : ℚ) : |q / (2 : ℚ) ^ scale q| < 2 ^ 53 := by
  have hpos : (0 : ℚ) < (2 : ℚ) ^ scale q := zpow_pos two_pos _
  rw [abs_div, abs_of_pos hpos, div_lt_iff₀ hpos]
  have hlt := abs_lt_zpow_scale q
  rw [zpow_add₀ two_ne_zero] at hlt
  exact_mod_cast hlt

/-- What is rounded is a double, or overflows. -/
theorem roundTo_isDouble {q : ℚ} (h : |roundTo q| < 2 ^ 1024) : IsDouble (roundTo q) := by
  refine ⟨h, ?_⟩
  have hmantissa : |roundHalfEven (q / (2 : ℚ) ^ scale q)| ≤ 2 ^ 53 :=
    abs_roundHalfEven_le (by push_cast; exact (abs_div_scale_lt q).le)
  have hscale : -1074 ≤ scale q := le_max_right _ _
  rcases hmantissa.lt_or_eq with hlt | heq
  · exact ⟨_, _, hlt, hscale, rfl⟩
  · -- a mantissa that is rounded up to 54 bits loses its last one
    have hdouble : ∀ m : ℤ, roundTo q = (2 * m : ℤ) * (2 : ℚ) ^ scale q → |m| < 2 ^ 53 →
        ∃ m e : ℤ, |m| < 2 ^ 53 ∧ -1074 ≤ e ∧ roundTo q = m * (2 : ℚ) ^ e := by
      intro m hm hlt
      refine ⟨m, scale q + 1, hlt, by omega, ?_⟩
      rw [hm, zpow_add_one₀ two_ne_zero]
      push_cast
      ring
    rcases (abs_eq (by norm_num)).mp heq with hpos | hneg
    · exact hdouble (2 ^ 52) (by rw [roundTo, hpos]; norm_num) (by norm_num)
    · exact hdouble (-2 ^ 52) (by rw [roundTo, hneg]; norm_num) (by norm_num)

theorem roundTo_zero : roundTo 0 = 0 := by
  have hzero := roundHalfEven_intCast 0
  rw [roundTo, zero_div, ← Int.cast_zero, hzero, Int.cast_zero, zero_mul]

/-- A double is not changed. -/
theorem roundTo_eq_self {q : ℚ} (h : IsDouble q) : roundTo q = q := by
  rcases eq_or_ne q 0 with rfl | hne
  · exact roundTo_zero
  obtain ⟨-, m, e, hm, he, hq⟩ := h
  have hpos : (0 : ℚ) < (2 : ℚ) ^ scale q := zpow_pos two_pos _
  have hscale : scale q ≤ e := by
    refine max_le ?_ he
    have hsize : |q| < (2 : ℚ) ^ (53 + e) := by
      have hm' : |(m : ℚ)| < 2 ^ 53 := by exact_mod_cast hm
      have hfactor : (0 : ℚ) < (2 : ℚ) ^ e := zpow_pos two_pos _
      rw [hq, abs_mul, abs_of_pos hfactor, zpow_add₀ two_ne_zero]
      exact mul_lt_mul_of_pos_right (by exact_mod_cast hm') hfactor
    have hlog : Int.log 2 |q| < 53 + e :=
      (Int.lt_zpow_iff_log_lt one_lt_two (abs_pos.mpr hne)).mp (by exact_mod_cast hsize)
    omega
  obtain ⟨k, hk⟩ := Int.eq_ofNat_of_zero_le (sub_nonneg.mpr hscale)
  have hquot : q / (2 : ℚ) ^ scale q = ((m * 2 ^ k : ℤ) : ℚ) := by
    have hsplit : e = k + scale q := by omega
    have hpow : (2 : ℚ) ^ e = 2 ^ k * (2 : ℚ) ^ scale q := by
      rw [← zpow_natCast, ← zpow_add₀ two_ne_zero, ← hsplit]
    rw [div_eq_iff hpos.ne']
    push_cast
    rw [mul_assoc, ← hpow]
    exact hq
  rw [roundTo, hquot, roundHalfEven_intCast, ← hquot, div_mul_cancel₀ _ hpos.ne']

theorem isDouble_intCast {n : ℤ} (h : |n| ≤ 2 ^ 53) : IsDouble n := by
  have hsize : |(n : ℚ)| < 2 ^ 1024 := by
    have hn : |(n : ℚ)| ≤ 2 ^ 53 := by exact_mod_cast h
    exact hn.trans_lt (pow_lt_pow_right₀ one_lt_two (by decide))
  rcases h.lt_or_eq with hlt | heq
  · exact ⟨hsize, n, 0, hlt, by decide, by simp⟩
  · rcases (abs_eq (by norm_num)).mp heq with rfl | rfl
    · exact ⟨hsize, 1, 53, by norm_num, by decide, by norm_num⟩
    · exact ⟨hsize, -1, 53, by norm_num, by decide, by norm_num⟩

/-- Up to the next power of two, one more is a double. -/
theorem IsDouble.add_one {x : ℚ} (h : IsDouble x) {k : ℕ} (hk : k ≤ 52) (hlow : 2 ^ k ≤ x)
    (hhigh : x + 1 ≤ 2 ^ (k + 1)) : IsDouble (x + 1) := by
  have hone : (1 : ℚ) ≤ 2 ^ k := one_le_pow₀ one_le_two
  have htop : x + 1 ≤ 2 ^ 53 := hhigh.trans (pow_le_pow_right₀ one_le_two (by omega))
  have hwhole : ∀ n : ℤ, x + 1 = n → IsDouble (x + 1) := by
    intro n hn
    rw [hn] at htop ⊢
    have hpos : (0 : ℚ) < n := by linarith
    refine isDouble_intCast ?_
    rw [abs_of_pos (by exact_mod_cast hpos)]
    exact_mod_cast htop
  obtain ⟨-, m, e, hm, he, hx⟩ := h
  rcases le_or_gt 0 e with hnonneg | hneg
  · obtain ⟨d, rfl⟩ := Int.eq_ofNat_of_zero_le hnonneg
    refine hwhole (m * 2 ^ d + 1) ?_
    rw [hx, zpow_natCast]
    push_cast
    rfl
  · obtain ⟨d, hd⟩ := Int.eq_ofNat_of_zero_le (by omega : 0 ≤ -e)
    have hpow : (2 : ℚ) ^ e * 2 ^ d = 1 := by
      rw [← zpow_natCast, ← zpow_add₀ two_ne_zero, show e + (d : ℤ) = 0 by omega, zpow_zero]
    have hscaled : (m : ℚ) = x * 2 ^ d := by rw [hx, mul_assoc, hpow, mul_one]
    have hsum : x + 1 = (m + 2 ^ d : ℤ) * (2 : ℚ) ^ e := by
      push_cast
      rw [add_mul, ← hx, mul_comm ((2 : ℚ) ^ d), hpow]
    have hdpos : (0 : ℚ) < 2 ^ d := pow_pos two_pos d
    -- the bits behind the point are at most those of the mantissa
    have hbits : k + d ≤ 52 := by
      have hlt : (2 : ℚ) ^ (k + d) < 2 ^ 53 := by
        have hm' : (m : ℚ) < 2 ^ 53 := by exact_mod_cast (le_abs_self m).trans_lt hm
        rw [pow_add]
        exact (mul_le_mul_of_nonneg_right hlow hdpos.le).trans_lt (hscaled ▸ hm')
      have := (pow_lt_pow_iff_right₀ one_lt_two).mp hlt
      omega
    have hbound : (m + 2 ^ d : ℤ) ≤ 2 ^ 53 := by
      have hle : ((m + 2 ^ d : ℤ) : ℚ) ≤ 2 ^ 53 := by
        push_cast
        rw [hscaled, ← add_one_mul]
        refine (mul_le_mul_of_nonneg_right hhigh hdpos.le).trans ?_
        rw [← pow_add]
        exact pow_le_pow_right₀ one_le_two (by omega)
      exact_mod_cast hle
    have hpos : 0 < (m + 2 ^ d : ℤ) := by
      have hlt : (0 : ℚ) < ((m + 2 ^ d : ℤ) : ℚ) := by
        push_cast
        rw [hscaled, ← add_one_mul]
        exact mul_pos (by linarith) hdpos
      exact_mod_cast hlt
    rcases hbound.lt_or_eq with hlt | heq
    · refine ⟨?_, _, e, by rwa [abs_of_pos hpos], he, hsum⟩
      rw [abs_of_pos (by linarith)]
      exact htop.trans_lt (pow_lt_pow_right₀ one_lt_two (by decide))
    · refine hwhole (2 ^ (53 - d)) ?_
      have hsplit : (2 : ℚ) ^ 53 = 2 ^ (53 - d) * 2 ^ d := by
        rw [← pow_add, Nat.sub_add_cancel (by omega)]
      rw [hsum, heq, Int.cast_pow, Int.cast_pow, Int.cast_ofNat, hsplit, mul_assoc, mul_comm ((2 : ℚ) ^ d), hpow, mul_one]

/-- A number that is at most a whole one is so after rounding. -/
theorem roundTo_le {n : ℤ} (hn : n < 2 ^ 53) (hnonneg : 0 ≤ n) {q : ℚ} (h : q ≤ n) :
    roundTo q ≤ n := by
  have hpos : (0 : ℚ) < (2 : ℚ) ^ scale q := zpow_pos two_pos _
  rcases le_or_gt q 0 with hle | hgt
  · have hround : roundHalfEven (q / (2 : ℚ) ^ scale q) ≤ 0 :=
      roundHalfEven_le (by push_cast; exact div_nonpos_of_nonpos_of_nonneg hle hpos.le)
    have hcast : ((roundHalfEven (q / (2 : ℚ) ^ scale q) : ℤ) : ℚ) ≤ 0 := by exact_mod_cast hround
    exact (mul_nonpos_of_nonpos_of_nonneg hcast hpos.le).trans (by exact_mod_cast hnonneg)
  · have hscale : scale q ≤ 0 := by
      refine max_le ?_ (by decide)
      have hlt : |q| < (2 : ℚ) ^ (53 : ℤ) := by
        rw [abs_of_pos hgt]
        refine h.trans_lt ?_
        exact_mod_cast hn
      have hlog : Int.log 2 |q| < 53 :=
        (Int.lt_zpow_iff_log_lt one_lt_two (abs_pos.mpr hgt.ne')).mp (by exact_mod_cast hlt)
      omega
    obtain ⟨d, hd⟩ := Int.eq_ofNat_of_zero_le (by omega : 0 ≤ -scale q)
    have hpow : (2 : ℚ) ^ d * (2 : ℚ) ^ scale q = 1 := by
      rw [← zpow_natCast, ← zpow_add₀ two_ne_zero, show (d : ℤ) + scale q = 0 by omega, zpow_zero]
    have hround : roundHalfEven (q / (2 : ℚ) ^ scale q) ≤ n * 2 ^ d := by
      refine roundHalfEven_le ?_
      rw [div_le_iff₀ hpos]
      push_cast
      rw [mul_assoc, hpow, mul_one]
      exact h
    have hcast : ((roundHalfEven (q / (2 : ℚ) ^ scale q) : ℤ) : ℚ) ≤ n * 2 ^ d := by
      exact_mod_cast hround
    calc roundTo q ≤ n * 2 ^ d * (2 : ℚ) ^ scale q := mul_le_mul_of_nonneg_right hcast hpos.le
      _ = n := by rw [mul_assoc, hpow, mul_one]

theorem roundTo_nonneg {q : ℚ} (h : 0 ≤ q) : 0 ≤ roundTo q := by
  have hpos : (0 : ℚ) < (2 : ℚ) ^ scale q := zpow_pos two_pos _
  have hround : 0 ≤ roundHalfEven (q / (2 : ℚ) ^ scale q) :=
    le_roundHalfEven (by push_cast; exact div_nonneg h hpos.le)
  exact mul_nonneg (by exact_mod_cast hround) hpos.le

/-! ### Sums -/

/-- A finite double. -/
structure Double where
  val : ℚ
  isDouble : IsDouble val

inductive Number where
  | nan
  | infinite (negative : Bool)
  | finite (x : Double)

/-- The number that a rational number is rounded to. -/
def ofRat (q : ℚ) : Number :=
  if h : |roundTo q| < 2 ^ 1024 then .finite ⟨roundTo q, roundTo_isDouble h⟩
  else .infinite (decide (q < 0))

def add : Number → Number → Number
  | .nan, _ => .nan
  | _, .nan => .nan
  | .infinite s, .infinite t => if s = t then .infinite s else .nan
  | .infinite s, .finite _ => .infinite s
  | .finite _, .infinite t => .infinite t
  | .finite x, .finite y => ofRat (x.val + y.val)

/-- `x > y`; a value that is no number is not greater than any. -/
def gt : Number → Number → Prop
  | .nan, _ => False
  | _, .nan => False
  | .infinite s, .infinite t => s = false ∧ t = true
  | .infinite s, .finite _ => s = false
  | .finite _, .infinite t => t = true
  | .finite x, .finite y => y.val < x.val

instance (x y : Number) : Decidable (gt x y) := by
  cases x <;> cases y <;> unfold gt <;> infer_instance

/-- A whole number of up to 53 bits. -/
def ofInt (n : ℤ) (h : |n| ≤ 2 ^ 53) : Double := ⟨n, isDouble_intCast h⟩

theorem ofRat_exact {q : ℚ} (h : IsDouble q) : ofRat q = .finite ⟨q, h⟩ := by
  have hround := roundTo_eq_self h
  have hsize : |roundTo q| < 2 ^ 1024 := hround.symm ▸ h.1
  rw [ofRat, dif_pos hsize]
  simp only [hround]

/-- A number that is at most a whole one does not become greater than it by rounding. -/
theorem not_gt_ofRat {n : ℤ} (hn : |n| ≤ 2 ^ 53) (hlt : n < 2 ^ 53) (hnonneg : 0 ≤ n) {q : ℚ}
    (h : q ≤ n) : ¬ gt (ofRat q) (.finite (ofInt n hn)) := by
  have hle := roundTo_le hlt hnonneg h
  unfold ofRat
  split
  · exact not_lt.mpr hle
  · rename_i hlarge
    rcases lt_or_ge q 0 with hneg | hpos
    · simp [gt, hneg]
    · refine absurd ?_ hlarge
      rw [abs_of_nonneg (roundTo_nonneg hpos)]
      have hn' : (n : ℚ) < 2 ^ 53 := by exact_mod_cast hlt
      exact (hle.trans_lt hn').trans (pow_lt_pow_right₀ one_lt_two (by decide))

/-- A sum is exact where it is a double. -/
theorem add_exact (x y : Double) (h : IsDouble (x.val + y.val)) :
    add (.finite x) (.finite y) = .finite ⟨x.val + y.val, h⟩ := ofRat_exact h

end Binary64
