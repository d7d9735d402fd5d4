import Mathlib.Algebra.Order.Ring.Int
import Mathlib.Data.Nat.Log
import Mathlib.Tactic.Ring
import PageCompiler.Number.Binary64

/-!
# Rounding

Which whole numbers of units are magnitudes of the format, and when a quotient is rounded to a given
one. A quotient is rounded on the grid of the binade it lies in, so everything comes down to naming
that grid (`spacing_eq`) and to the two ways in which a quotient can be near a point of it
(`divNearest_of_above`, `divNearest_of_below`).

The type of floating-point numbers has room for magnitudes with more bits than the format has.
Nothing in the library makes such a number: whatever is rounded is a magnitude, or too large
(`ofRatio_cases`), and so is every decimal that is read (`ofDecimal_cases`). A magnitude is not
changed by rounding (`roundRatio_of_isMagnitude`).
-/

namespace PageCompiler

variable {units : Nat} {i : Int}

namespace Binary64

/-- Whether a whole number of units is a magnitude of the format: it lies on the grid of its binade,
and it is not too large. -/
structure IsMagnitude (units : Nat) : Prop where
  /-- It lies on the grid. -/
  onGrid : spacing units ∣ units
  /-- It is finite in the format. -/
  lt_limit : units < limit

/-- Whether a floating-point number is one of the format. -/
inductive IsDouble : Binary64 → Prop
  | nan : IsDouble .nan
  | infinite (negative : Bool) : IsDouble (.infinite negative)
  | finite (negative : Bool) {units : Nat} (h : IsMagnitude units) :
    IsDouble (.finite negative units)

/-! ## Grids -/

theorem twoPow_eq (n : Nat) : twoPow n = 2 ^ n := rfl

theorem tenPow_eq (n : Nat) : tenPow n = 10 ^ n := rfl

theorem twoPow_pos (n : Nat) : 0 < twoPow n := Nat.two_pow_pos n

theorem tenPow_pos (n : Nat) : 0 < tenPow n := Nat.pow_pos (by decide)

theorem one_pos : 0 < one := twoPow_pos 1074

theorem spacing_pos (units : Nat) : 0 < spacing units := twoPow_pos _

theorem spacing_eq {k : Nat} (hlow : 2 ^ k ≤ units) (hhigh : units < 2 ^ (k + 1)) :
    spacing units = 2 ^ (k - 52) := by
  have hne : units ≠ 0 := by
    have := Nat.two_pow_pos k
    omega
  have hlog : units.log2 = k := (Nat.log2_eq_iff hne).mpr ⟨hlow, hhigh⟩
  rw [spacing, hlog, twoPow_eq]

theorem spacing_of_lt (h : units < 2 ^ 53) : spacing units = 1 := by
  have hlog : units.log2 ≤ 52 := by
    rcases Nat.eq_zero_or_pos units with rfl | hpos
    · simp
    · exact Nat.lt_succ_iff.mp ((Nat.log2_lt (by omega)).mpr h)
  rw [spacing, Nat.sub_eq_zero_of_le hlog, twoPow_eq, Nat.pow_zero]

theorem lt_spacing_mul (units : Nat) : units < 2 ^ 53 * spacing units := by
  rcases Nat.eq_zero_or_pos units with rfl | hpos
  · exact Nat.mul_pos (by decide) (spacing_pos 0)
  · have hlog := Nat.lt_log2_self (n := units)
    rw [spacing, twoPow_eq, ← Nat.pow_add]
    exact hlog.trans_le (Nat.pow_le_pow_right (by decide) (by omega))

theorem spacing_le (h : 0 < units) : spacing units ≤ units := by
  have hlog := Nat.log2_self_le (n := units) (by omega)
  exact (Nat.pow_le_pow_right (by decide) (Nat.sub_le _ _)).trans hlog

/-- A point of a grid with at most `2 ^ 53` steps below it lies on the grid of its own binade. -/
theorem spacing_dvd {k m : Nat} (h : m ≤ 2 ^ 53) : spacing (2 ^ k * m) ∣ 2 ^ k * m := by
  rcases Nat.eq_zero_or_pos m with rfl | hpos
  · simp
  rcases Nat.lt_or_eq_of_le h with hlt | rfl
  · have hlog : (2 ^ k * m).log2 ≤ k + 52 := by
      have hne : 2 ^ k * m ≠ 0 := Nat.ne_of_gt (Nat.mul_pos (Nat.two_pow_pos k) hpos)
      refine Nat.lt_succ_iff.mp ((Nat.log2_lt hne).mpr ?_)
      rw [Nat.succ_eq_add_one, Nat.add_assoc, Nat.pow_add]
      exact Nat.mul_lt_mul_of_pos_left hlt (Nat.two_pow_pos k)
    exact (Nat.pow_dvd_pow 2 (by omega)).trans (Nat.dvd_mul_right _ m)
  · have hhigh : 2 ^ (k + 53) < 2 ^ (k + 53 + 1) := Nat.pow_lt_pow_right (by decide) (by omega)
    rw [← Nat.pow_add, spacing_eq le_rfl hhigh]
    exact Nat.pow_dvd_pow 2 (by omega)

/-! ## Nearest points -/

section Nearest

variable {num den m r : Nat}

/-- How a quotient is rounded, told by its remainder. -/
theorem divNearest_add (hr : r < den) : divNearest (m * den + r) den =
    if 2 * r < den then m else if den < 2 * r then m + 1 else m + m % 2 := by
  have hdiv : (m * den + r) / den = m := by
    rw [Nat.mul_comm, Nat.mul_add_div (Nat.zero_lt_of_lt hr), Nat.div_eq_of_lt hr, Nat.add_zero]
  have hmod : (m * den + r) % den = r := by
    rw [Nat.mul_comm, Nat.mul_add_mod, Nat.mod_eq_of_lt hr]
  rw [divNearest, hdiv, hmod]

theorem divNearest_of_above (hden : 0 < den) (hnum : num = m * den + r)
    (hr : 2 * r < den ∨ 2 * r = den ∧ m % 2 = 0) : divNearest num den = m := by
  rw [hnum, divNearest_add (by omega)]
  rcases hr with hless | ⟨htie, heven⟩
  · rw [if_pos hless]
  · rw [if_neg (by omega), if_neg (by omega), heven, Nat.add_zero]

theorem divNearest_of_below (hpos : 0 < r) (hnum : num + r = m * den)
    (hr : 2 * r < den ∨ 2 * r = den ∧ m % 2 = 0) : divNearest num den = m := by
  obtain ⟨m, rfl⟩ : ∃ n, m = n + 1 := by
    refine Nat.exists_eq_add_one.mpr (Nat.pos_of_ne_zero ?_)
    rintro rfl
    omega
  have hsplit : num = m * den + (den - r) := by
    rw [Nat.add_one_mul] at hnum
    omega
  rw [hsplit, divNearest_add (by omega)]
  rcases hr with hless | ⟨htie, heven⟩
  · rw [if_neg (by omega), if_pos (by omega)]
  · rw [if_neg (by omega), if_neg (by omega)]
    omega

theorem divNearest_le (h : num < m * den) : divNearest num den ≤ m := by
  have hdiv : num / den < m := Nat.div_lt_of_lt_mul (by rwa [Nat.mul_comm])
  rw [divNearest]
  split_ifs <;> omega

theorem divNearest_mul_right {c : Nat} (hc : 0 < c) :
    divNearest (num * c) (den * c) = divNearest num den := by
  rw [divNearest, divNearest, Nat.mul_div_mul_right _ _ hc, Nat.mul_mod_mul_right]
  have hlt : 2 * (num % den * c) < den * c ↔ 2 * (num % den) < den := by
    rw [← Nat.mul_assoc, Nat.mul_lt_mul_right hc]
  have hgt : den * c < 2 * (num % den * c) ↔ den < 2 * (num % den) := by
    rw [← Nat.mul_assoc, Nat.mul_lt_mul_right hc]
  simp only [hlt, hgt]

theorem roundRatio_congr {num' den' : Nat} (hden : 0 < den) (hden' : 0 < den')
    (h : num * den' = num' * den) : roundRatio num den = roundRatio num' den' := by
  have hdiv : num / den = num' / den' := by
    rw [← Nat.mul_div_mul_right num den hden', h, Nat.mul_comm den den',
      Nat.mul_div_mul_right num' den' hden]
  have hnearest (step : Nat) : divNearest num (den * step) = divNearest num' (den' * step) := by
    rw [← divNearest_mul_right hden', h, Nat.mul_right_comm, Nat.mul_comm den den',
      Nat.mul_right_comm]
    exact divNearest_mul_right hden
  simp only [roundRatio, hdiv, hnearest]

/-- A quotient near a point of the grid of its binade is rounded to that point. -/
theorem roundRatio_of_above (hden : 0 < den) {step : Nat} (hstep : spacing (num / den) = step)
    (hnum : num = m * (den * step) + r)
    (hr : 2 * r < den * step ∨ 2 * r = den * step ∧ m % 2 = 0) :
    roundRatio num den = step * m := by
  have hpos : 0 < step := hstep ▸ spacing_pos _
  rw [roundRatio, hstep, divNearest_of_above (Nat.mul_pos hden hpos) hnum hr]

theorem roundRatio_of_below {step : Nat} (hstep : spacing (num / den) = step) (hpos : 0 < r)
    (hnum : num + r = m * (den * step))
    (hr : 2 * r < den * step ∨ 2 * r = den * step ∧ m % 2 = 0) :
    roundRatio num den = step * m := by
  rw [roundRatio, hstep, divNearest_of_below hpos hnum hr]

end Nearest

/-! ## Magnitudes -/

/-- Whatever is rounded lies on the grid of its own binade. -/
theorem spacing_dvd_roundRatio {num den : Nat} (hden : 0 < den) :
    spacing (roundRatio num den) ∣ roundRatio num den := by
  have hquotient : num < 2 ^ 53 * (den * spacing (num / den)) := by
    have hlt := lt_spacing_mul (num / den)
    have hnum := Nat.lt_mul_div_succ num hden
    calc num < den * (num / den + 1) := hnum
      _ ≤ den * (2 ^ 53 * spacing (num / den)) := Nat.mul_le_mul_left den hlt
      _ = 2 ^ 53 * (den * spacing (num / den)) := by ring
  exact spacing_dvd (divNearest_le hquotient)

theorem isMagnitude_zero : IsMagnitude 0 := ⟨Nat.dvd_zero _, twoPow_pos 2098⟩

theorem ofRatio_cases (negative : Bool) (num : Nat) {den : Nat} (hden : 0 < den) :
    ofRatio negative num den = .infinite negative ∨
      ∃ units, IsMagnitude units ∧ ofRatio negative num den = .finite negative units := by
  rw [ofRatio]
  split_ifs with hlt
  · exact .inr ⟨_, ⟨spacing_dvd_roundRatio hden, hlt⟩, rfl⟩
  · exact .inl rfl

theorem ofDecimal_cases (negative : Bool) (digits : List Nat) (exponent : Int) :
    ofDecimal negative digits exponent = .infinite negative ∨
      ∃ units, IsMagnitude units ∧ ofDecimal negative digits exponent = .finite negative units := by
  rw [ofDecimal]
  dsimp only
  split_ifs
  · exact .inr ⟨0, isMagnitude_zero, rfl⟩
  · exact .inl rfl
  · exact .inr ⟨0, isMagnitude_zero, rfl⟩
  · exact ofRatio_cases negative _ Nat.one_pos
  · exact ofRatio_cases negative _ (tenPow_pos _)

theorem roundRatio_of_isMagnitude (h : IsMagnitude units) : roundRatio units 1 = units := by
  obtain ⟨m, hm⟩ := h.onGrid
  have hstep : spacing (units / 1) = spacing units := by rw [Nat.div_one]
  have hround : roundRatio units 1 = spacing units * m := by
    refine roundRatio_of_above Nat.one_pos hstep (r := 0) ?_ (.inl ?_)
    · rw [Nat.one_mul, Nat.add_zero, Nat.mul_comm]
      exact hm
    · rw [Nat.one_mul]
      exact spacing_pos units
  rw [hround, ← hm]

/-! ## Integers -/

theorem signedUnits_of_natAbs (h : units = i.natAbs * one) :
    signedUnits (i < 0) units = i * one := by
  rw [signedUnits, h]
  rcases lt_or_ge i 0 with hneg | hpos
  · rw [if_pos (decide_eq_true hneg)]
    push_cast
    rw [abs_of_neg hneg, Int.neg_mul, Int.neg_neg]
  · rw [if_neg (by simpa using hpos)]
    push_cast
    rw [abs_of_nonneg hpos]

/-- A number of the format that equals an integer is what the integer is converted to, up to the
sign of a zero. -/
theorem ofInt?_of_equalsInt {x : Binary64} (hx : x.IsDouble) (h : x.equalsInt i = true) :
    ∃ y, ofInt? i = some y ∧ y.place? = x.place? := by
  cases hx with
  | nan => cases h
  | infinite negative => cases h
  | finite negative hunits =>
    rename_i units
    have hvalue : signedUnits negative units = i * one := by
      rw [equalsInt] at h
      exact eq_of_beq h
    have habs : units = i.natAbs * one := by
      have := congrArg Int.natAbs hvalue
      rw [Int.natAbs_mul, Int.natAbs_natCast, signedUnits] at this
      split_ifs at this with hneg
      · rwa [Int.natAbs_neg, Int.natAbs_natCast] at this
      · rwa [Int.natAbs_natCast] at this
    have hround : roundRatio (i.natAbs * one) 1 = units := by
      rw [← habs, roundRatio_of_isMagnitude hunits]
    refine ⟨.finite (i < 0) units, ?_, ?_⟩
    · simp only [ofInt?, hround, if_pos hunits.lt_limit]
    · rw [place?, place?, signedUnits_of_natAbs habs, hvalue]

theorem exists_place_of_ofInt? {y : Binary64} (h : ofInt? i = some y) :
    ∃ place, y.place? = some place := by
  simp only [ofInt?] at h
  split_ifs at h
  obtain rfl := Option.some.inj h
  exact ⟨_, rfl⟩

theorem equals_iff {x y : Binary64} :
    x.equals y = true ↔ ∃ place, x.place? = some place ∧ y.place? = some place := by
  rw [equals]
  cases x.place? with
  | none => simp
  | some p =>
    cases y.place? with
    | none => simp
    | some q => simp [@eq_comm _ q]

end Binary64

end PageCompiler
