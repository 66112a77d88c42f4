import Mathlib.Algebra.Ring.Parity
import Mathlib.Data.Nat.Dist
import Mathlib.Data.Nat.Factorization.Basic
import Mathlib.Tactic.Ring

/-!
# Rounding natural numbers to significant bits

A number with at most `p` significant bits is a mantissa below `2 ^ p` shifted
to the left.  Rounding to the nearest such number, ties to even, leaves exactly
these numbers alone; a divisor of such a number is again one.
-/

namespace BlockchainDataCollection.Rounding

/-- At most `p` significant bits. -/
def Representable (p n : ℕ) : Prop :=
  ∃ mantissa shift, mantissa < 2 ^ p ∧ n = mantissa * 2 ^ shift

/-- The place of the last significant bit of a number of more than `p` bits. -/
def unit (p n : ℕ) : ℕ := 2 ^ (Nat.log2 n - (p - 1))

/-- The nearest number of at most `p` significant bits, ties to even. -/
def roundTo (p n : ℕ) : ℕ :=
  if n < 2 ^ p then n
  else
    let quotient := n / unit p n
    let remainder := n % unit p n
    if 2 * remainder < unit p n ∨ 2 * remainder = unit p n ∧ quotient % 2 = 0 then
      quotient * unit p n
    else (quotient + 1) * unit p n

theorem unit_pos (p n : ℕ) : 0 < unit p n := Nat.two_pow_pos _

theorem representable_of_lt {p n : ℕ} (h : n < 2 ^ p) : Representable p n :=
  ⟨n, 0, h, by rw [pow_zero, mul_one]⟩

section Wide

variable {p n : ℕ}

theorem ne_zero_of_wide (hn : 2 ^ p ≤ n) : n ≠ 0 :=
  Nat.ne_zero_of_lt ((Nat.two_pow_pos p).trans_le hn)

theorem le_log2_of_wide (hn : 2 ^ p ≤ n) : p ≤ Nat.log2 n :=
  (Nat.le_log2 (ne_zero_of_wide hn)).mpr hn

theorem log2_add_one (hp : 0 < p) (hn : 2 ^ p ≤ n) :
    Nat.log2 n + 1 = p + (Nat.log2 n - (p - 1)) := by
  have hlog := le_log2_of_wide hn
  omega

/-- The quotient by the unit has `p` bits. -/
theorem div_unit_lt (hp : 0 < p) (hn : 2 ^ p ≤ n) : n / unit p n < 2 ^ p := by
  rw [Nat.div_lt_iff_lt_mul (unit_pos p n), unit, ← pow_add, ← log2_add_one hp hn]
  exact Nat.lt_log2_self

theorem representable_iff_unit_dvd (hp : 0 < p) (hn : 2 ^ p ≤ n) :
    Representable p n ↔ unit p n ∣ n := by
  constructor
  · rintro ⟨mantissa, shift, hmantissa, hvalue⟩
    have hlt : n < 2 ^ (p + shift) := by
      rw [hvalue, pow_add]
      exact Nat.mul_lt_mul_of_pos_right hmantissa (Nat.two_pow_pos shift)
    have hlog : Nat.log2 n < p + shift := (Nat.log2_lt (ne_zero_of_wide hn)).mpr hlt
    have hdvd : unit p n ∣ 2 ^ shift := pow_dvd_pow 2 (by omega)
    exact hdvd.trans (hvalue ▸ Dvd.intro_left mantissa rfl)
  · intro hdvd
    exact ⟨n / unit p n, _, div_unit_lt hp hn, (Nat.div_mul_cancel hdvd).symm⟩

theorem two_pow_log2_eq (hp : 0 < p) (hn : 2 ^ p ≤ n) :
    2 ^ Nat.log2 n = 2 ^ (p - 1) * unit p n := by
  have hlog := log2_add_one hp hn
  rw [unit, ← pow_add]
  congr 1
  omega

/-- Between two neighbouring multiples of the unit there is nothing. -/
theorem le_or_le_of_representable (hp : 0 < p) (hn : 2 ^ p ≤ n) {x : ℕ}
    (hx : Representable p x) :
    x ≤ n / unit p n * unit p n ∨ (n / unit p n + 1) * unit p n ≤ x := by
  by_contra hbetween
  obtain ⟨hlow, hhigh⟩ := not_or.mp hbetween
  have hlog := log2_add_one hp hn
  have hdown : 2 ^ Nat.log2 n ≤ n / unit p n * unit p n := by
    rw [two_pow_log2_eq hp hn]
    apply Nat.mul_le_mul_right
    rw [Nat.le_div_iff_mul_le (unit_pos p n), ← two_pow_log2_eq hp hn]
    exact Nat.log2_self_le (ne_zero_of_wide hn)
  have hup : (n / unit p n + 1) * unit p n ≤ 2 ^ (Nat.log2 n + 1) := by
    rw [hlog, pow_add]
    exact Nat.mul_le_mul_right _ (div_unit_lt hp hn)
  have hwide : 2 ^ p ≤ x :=
    (Nat.pow_le_pow_right (by decide) (le_log2_of_wide hn)).trans
      (hdown.trans (not_le.mp hlow).le)
  have hsame : Nat.log2 x = Nat.log2 n := by
    have hle := (Nat.le_log2 (ne_zero_of_wide hwide)).mpr (hdown.trans (not_le.mp hlow).le)
    have hlt := (Nat.log2_lt (ne_zero_of_wide hwide)).mpr ((not_le.mp hhigh).trans_le hup)
    omega
  have hunit : unit p x = unit p n := by rw [unit, unit, hsame]
  obtain ⟨multiple, rfl⟩ := hunit ▸ (representable_iff_unit_dvd hp hwide).mp hx
  rw [Nat.mul_comm (unit p n)] at hlow hhigh
  have hgt := Nat.lt_of_mul_lt_mul_right (not_le.mp hlow)
  have hlt := Nat.lt_of_mul_lt_mul_right (not_le.mp hhigh)
  omega

/-- A mantissa that is rounded up to `2 ^ p` is one bit further to the left. -/
theorem representable_mul_two_pow {mantissa shift : ℕ} (hp : 0 < p) (h : mantissa ≤ 2 ^ p) :
    Representable p (mantissa * 2 ^ shift) := by
  rcases Nat.lt_or_eq_of_le h with hlt | heq
  · exact ⟨mantissa, shift, hlt, rfl⟩
  · exact ⟨1, p + shift, Nat.one_lt_two_pow (by omega), by rw [heq, one_mul, pow_add]⟩

end Wide

theorem representable_roundTo {p : ℕ} (hp : 0 < p) (n : ℕ) : Representable p (roundTo p n) := by
  unfold roundTo
  split
  · exact representable_of_lt ‹_›
  · have hquotient := div_unit_lt hp (not_lt.mp ‹_›)
    dsimp only
    split
    · exact representable_mul_two_pow hp hquotient.le
    · exact representable_mul_two_pow hp hquotient

theorem roundTo_of_representable {p n : ℕ} (hp : 0 < p) (h : Representable p n) :
    roundTo p n = n := by
  unfold roundTo
  split
  · rfl
  · have hdvd := (representable_iff_unit_dvd hp (not_lt.mp ‹_›)).mp h
    have hremainder : n % unit p n = 0 := Nat.mod_eq_zero_of_dvd hdvd
    rw [hremainder, if_pos (.inl (by simpa using unit_pos p n))]
    exact Nat.div_mul_cancel hdvd

/-- Rounding is exact on the numbers of at most `p` significant bits, and on no
others. -/
theorem roundTo_eq_self_iff {p : ℕ} (hp : 0 < p) (n : ℕ) : roundTo p n = n ↔ Representable p n := by
  constructor
  · intro hround
    have hrepresentable := representable_roundTo hp n
    rwa [hround] at hrepresentable
  · exact roundTo_of_representable hp

/-- No number of at most `p` significant bits is nearer. -/
theorem dist_roundTo_le {p x : ℕ} (hp : 0 < p) (hx : Representable p x) (n : ℕ) :
    Nat.dist (roundTo p n) n ≤ Nat.dist x n := by
  unfold roundTo
  split
  · rw [Nat.dist_self]
    exact Nat.zero_le _
  · have hgap := le_or_le_of_representable hp (not_lt.mp ‹_›) hx
    have hdivision := Nat.div_add_mod' n (unit p n)
    have hremainder := Nat.mod_lt n (unit_pos p n)
    rw [Nat.add_mul, one_mul] at hgap
    dsimp only
    rw [Nat.add_mul, one_mul]
    generalize n / unit p n * unit p n = low at *
    split <;> simp only [Nat.dist] <;> omega

/-- Rounding does not cross a power of two. -/
theorem roundTo_le_two_pow {p n k : ℕ} (hp : 0 < p) (h : n ≤ 2 ^ k) : roundTo p n ≤ 2 ^ k := by
  rcases Nat.lt_or_eq_of_le h with hlt | rfl
  · unfold roundTo
    split
    · exact h
    · have hlog : Nat.log2 n < k := (Nat.log2_lt (ne_zero_of_wide (not_lt.mp ‹_›))).mpr hlt
      have hdvd : unit p n ∣ 2 ^ k := pow_dvd_pow 2 (by omega)
      have hup : (n / unit p n + 1) * unit p n ≤ 2 ^ k := by
        have hquotient : n / unit p n < 2 ^ k / unit p n := Nat.div_lt_div_of_lt_of_dvd hdvd hlt
        calc (n / unit p n + 1) * unit p n
            ≤ 2 ^ k / unit p n * unit p n := Nat.mul_le_mul_right _ hquotient
          _ = 2 ^ k := Nat.div_mul_cancel hdvd
      dsimp only
      split
      · exact (Nat.mul_le_mul_right _ (Nat.le_succ _)).trans hup
      · exact hup
  · have hpower : Representable p (2 ^ k) :=
      ⟨1, k, Nat.one_lt_two_pow (by omega), (one_mul _).symm⟩
    exact (roundTo_of_representable hp hpower).le

/-- A divisor has no more significant bits than the number it divides. -/
theorem representable_of_dvd {p a b : ℕ} (hb : b ≠ 0) (hdvd : a ∣ b) (h : Representable p b) :
    Representable p a := by
  obtain ⟨mantissa, shift, hmantissa, rfl⟩ := h
  have ha : a ≠ 0 := ne_zero_of_dvd_ne_zero hb hdvd
  obtain ⟨twos, odd, hodd, rfl⟩ := Nat.exists_eq_two_pow_mul_odd ha
  have hcoprime : Nat.Coprime odd (2 ^ shift) := (Nat.coprime_two_right.mpr hodd).pow_right shift
  have hmul : odd ∣ mantissa := hcoprime.dvd_of_dvd_mul_right (dvd_of_mul_left_dvd hdvd)
  have hle : odd ≤ mantissa := Nat.le_of_dvd (Nat.pos_of_ne_zero (left_ne_zero_of_mul hb)) hmul
  exact ⟨odd, twos, hle.trans_lt hmantissa, mul_comm _ _⟩

/-- A product of two rounded factors, rounded again, is exact if and only if
the product itself is representable: its factors then are, too. -/
theorem roundTo_mul_roundTo_eq_iff {p : ℕ} (hp : 0 < p) (a b : ℕ) :
    roundTo p (roundTo p a * roundTo p b) = a * b ↔ Representable p (a * b) := by
  constructor
  · intro hround
    have hrepresentable := representable_roundTo hp (roundTo p a * roundTo p b)
    rwa [hround] at hrepresentable
  · intro hproduct
    have hzero : roundTo p 0 = 0 := roundTo_of_representable hp ⟨0, 0, Nat.two_pow_pos p, rfl⟩
    by_cases hab : a * b = 0
    · rcases Nat.mul_eq_zero.mp hab with rfl | rfl
      · rw [hzero, zero_mul, hzero, zero_mul]
      · rw [hzero, mul_zero, hzero, mul_zero]
    · have ha := representable_of_dvd hab (Dvd.intro b rfl) hproduct
      have hb := representable_of_dvd hab (Dvd.intro_left a rfl) hproduct
      rw [roundTo_of_representable hp ha, roundTo_of_representable hp hb,
        roundTo_of_representable hp hproduct]

end BlockchainDataCollection.Rounding
