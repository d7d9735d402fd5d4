import Mathlib.Tactic.GCongr
import PageCompiler.Proofs.Rounding
import PageCompiler.Proofs.WrittenConditions

/-!
# Shortest decimals

The shortest decimal of a number of the format is read back as that number. There are three parts
to this, all in whole numbers of units.

* What is read: a decimal is read as the magnitude nearest to it, also where its size alone decides
  (`ofDecimal_eq`), and zeros at its end only move its point (`roundDecimal_mul_tenPow`).
* What is tested: the search takes a decimal if it lies in the interval around the magnitude
  (`rounds_iff`), and whatever lies there is rounded to the magnitude (`roundRatio_of_inInterval`).
  Below a power of two the grid is finer than above it, so the two sides go separately.
* That something is found: at the seventeenth digit the decimals stand closer than the numbers of
  the format (`lt_mul_gapBelow`), so the nearest of them lies in the interval
  (`exists_nearestDecimal?`).

No step of this needs a quotient to be a number: `d · 10 ^ power` units is a numerator and a
denominator of which one is a power of ten, and `Int.toNat` says which.
-/

namespace PageCompiler

/-! ## Rows of digits -/

variable {d units k den num n : Nat}

namespace Numeral

theorem valueOf_append (ds es : List Nat) :
    valueOf (ds ++ es) = valueOf ds * 10 ^ es.length + valueOf es := by
  induction es using List.reverseRecOn with
  | nil => simp [valueOf]
  | append_singleton es e ih =>
    rw [← List.append_assoc, valueOf_concat, valueOf_concat, ih, List.length_append,
      List.length_singleton, Nat.pow_succ]
    ring

theorem valueOf_digitValues_append (t u : Text) :
    valueOf (digitValues (t ++ u)) =
      valueOf (digitValues t) * 10 ^ u.length + valueOf (digitValues u) := by
  rw [digitValues, List.map_append, valueOf_append, List.length_map]
  rfl

theorem valueOf_digitValues_replicate (k : Nat) :
    valueOf (digitValues (List.replicate k '0')) = 0 := by
  induction k with
  | zero => rfl
  | succ k ih =>
    rw [List.replicate_succ', valueOf_digitValues_append, ih]
    rfl

theorem valueOf_lt {ds : List Nat} (h : ∀ d ∈ ds, d < 10) : valueOf ds < 10 ^ ds.length := by
  induction ds using List.reverseRecOn with
  | nil => simp [valueOf]
  | append_singleton ds d ih =>
    have hfront := ih fun e he ↦ h e (List.mem_append_left _ he)
    have hlast := h d (List.mem_append_right _ (List.mem_singleton_self d))
    rw [valueOf_concat, List.length_append, List.length_singleton, Nat.pow_succ]
    omega

theorem pow_le_valueOf (hd : 0 < d) (ds : List Nat) : 10 ^ ds.length ≤ valueOf (d :: ds) := by
  rw [← List.singleton_append, valueOf_append]
  exact (Nat.le_mul_of_pos_left _ (by simpa [valueOf] using hd)).trans (Nat.le_add_right _ _)

theorem valueOf_dropWhile (ds : List Nat) : valueOf (ds.dropWhile (· == 0)) = valueOf ds := by
  induction ds with
  | nil => rfl
  | cons d ds ih =>
    rw [List.dropWhile_cons]
    split_ifs with hd
    · rw [ih, eq_of_beq hd]
      simp [valueOf]
    · rfl

end Numeral

namespace Binary64

/-! ## The interval around a magnitude -/

theorem add_le_of_dvd {step a b : Nat} (ha : step ∣ a) (hb : step ∣ b) (h : a < b) :
    a + step ≤ b := by
  have hle := Nat.le_of_dvd (by omega) (Nat.dvd_sub hb ha)
  omega

theorem spacing_dvd_twoPow (h : units.log2 ≤ k) : spacing units ∣ 2 ^ k :=
  Nat.pow_dvd_pow 2 (by omega)

/-- The lower neighbour is one step of the grid away, except below a power of two that is not among
the least, where the grid changes. -/
theorem gapBelow_cases (h : 0 < units) :
    gapBelow units = spacing units ∧ (2 ^ units.log2 < units ∨ units.log2 ≤ 52) ∨
      ∃ k, units = 2 ^ (k + 53) ∧ spacing units = 2 * 2 ^ k ∧ gapBelow units = 2 ^ k := by
  rw [gapBelow]
  split_ifs with hgap
  · obtain ⟨hpower, hcoarse⟩ := hgap
    have hlog : 53 ≤ units.log2 := by
      by_contra hlow
      rw [spacing, Nat.sub_eq_zero_of_le (by omega)] at hcoarse
      exact absurd hcoarse (by decide)
    obtain ⟨k, hk⟩ := Nat.exists_eq_add_of_le' hlog
    have hspacing : spacing units = 2 * 2 ^ k := by
      rw [spacing, hk, Nat.add_sub_assoc (by decide), twoPow_eq, Nat.pow_succ, Nat.mul_comm]
    refine .inr ⟨k, ?_, hspacing, ?_⟩
    · rw [← hk, ← twoPow_eq, ← hpower]
    · rw [hspacing, Nat.mul_div_cancel_left _ (by decide)]
  · refine .inl ⟨rfl, ?_⟩
    have hle := Nat.log2_self_le (n := units) (by omega)
    rcases hle.lt_or_eq with hlt | heq
    · exact .inl hlt
    · refine .inr ?_
      by_contra hlog
      refine hgap ⟨heq.symm, ?_⟩
      rw [spacing, twoPow_eq]
      exact Nat.one_lt_two_pow (by omega)

theorem gapBelow_le (units : Nat) : gapBelow units ≤ spacing units := by
  rw [gapBelow]
  split_ifs
  · exact Nat.div_le_self _ 2
  · exact le_rfl

/-- Sixteen digits are finer than the grid of the format. -/
theorem lt_mul_gapBelow (h : 0 < units) : units < 10 ^ 16 * gapBelow units := by
  rcases gapBelow_cases h with ⟨hgap, -⟩ | ⟨k, hunits, -, hgap⟩
  · rw [hgap]
    have hlt := lt_spacing_mul units
    have hpos := spacing_pos units
    omega
  · rw [hgap, hunits, Nat.pow_add]
    have hpos := Nat.two_pow_pos k
    omega

/-- A whole number of units that goes into a magnitude and is below it by a gap at most lies in a
binade whose grid has that gap. -/
theorem spacing_of_below {q : Nat} (hgrid : spacing units ∣ units) (hlt : q < units)
    (hle : units ≤ q + gapBelow units) : spacing q = gapBelow units := by
  have hhigh := Nat.lt_log2_self (n := units)
  rcases gapBelow_cases (by omega : 0 < units) with ⟨hgap, hlow | hlow⟩ | ⟨k, hunits, -, hgap⟩
  · have hstep := add_le_of_dvd (spacing_dvd_twoPow (Nat.le_refl _)) hgrid hlow
    rw [hgap] at hle ⊢
    rw [spacing_eq (k := units.log2) (by omega) (by omega), spacing, twoPow_eq]
  · have hsmall : units < 2 ^ 53 := hhigh.trans_le (Nat.pow_le_pow_right (by decide) (by omega))
    rw [hgap, spacing_of_lt hsmall, spacing_of_lt (by omega)]
  · rw [hgap] at hle ⊢
    have hsplit : 2 ^ (k + 53) = 2 ^ (k + 52) + 2 ^ (k + 52) := by rw [Nat.pow_succ]; omega
    have hstep : 2 ^ k ≤ 2 ^ (k + 52) := Nat.pow_le_pow_right (by decide) (by omega)
    rw [spacing_eq (k := k + 52) (by omega) (by omega), Nat.add_sub_cancel]

theorem spacing_of_above {q : Nat} (hpos : 0 < units) (hgrid : spacing units ∣ units)
    (hle : units ≤ q) (hlt : q < units + spacing units) : spacing q = spacing units := by
  have hlow := Nat.log2_self_le (n := units) (by omega)
  have hhigh := Nat.lt_log2_self (n := units)
  have hstep := add_le_of_dvd hgrid (spacing_dvd_twoPow (Nat.le_succ _)) hhigh
  rw [spacing_eq (k := units.log2) (by omega) (by omega), spacing, twoPow_eq]

/-- Whether a distance is within half a gap from a magnitude, a tie counting only if the magnitude
is an even point of its grid. -/
def IsWithin (units distance gap : Nat) : Prop :=
  2 * distance < gap ∨ 2 * distance = gap ∧ units / spacing units % 2 = 0

/-- Whether a quotient lies in the interval that is rounded to a magnitude. -/
inductive InInterval (units num den : Nat) : Prop
  /-- At the magnitude or above it. -/
  | above {r : Nat} (hnum : num = units * den + r) (hr : IsWithin units r (spacing units * den))
  /-- Below the magnitude. -/
  | below {r : Nat} (hpos : 0 < r) (hnum : num + r = units * den)
    (hr : IsWithin units r (gapBelow units * den))

theorem IsWithin.le {distance gap : Nat} (h : IsWithin units distance gap) :
    2 * distance ≤ gap := by
  rcases h with h | ⟨h, -⟩ <;> omega

/-- A magnitude lies on the grid below it too, and at an even point if it does on its own. -/
theorem exists_eq_gapBelow_mul (hgrid : spacing units ∣ units) (hpos : 0 < units) :
    ∃ m, units = gapBelow units * m ∧ (units / spacing units % 2 = 0 → m % 2 = 0) := by
  have hwhole : spacing units * (units / spacing units) = units := Nat.mul_div_cancel' hgrid
  rcases gapBelow_cases hpos with ⟨hgap, -⟩ | ⟨k, -, hspacing, hgap⟩
  · exact ⟨units / spacing units, by rw [hgap, hwhole], id⟩
  · refine ⟨2 * (units / spacing units), ?_, fun _ ↦ Nat.mul_mod_right 2 _⟩
    rw [hgap, ← Nat.mul_assoc, Nat.mul_comm _ 2, ← hspacing, hwhole]

/-- What lies in the interval around a magnitude is rounded to it. -/
theorem roundRatio_of_inInterval (hgrid : spacing units ∣ units) (hpos : 0 < units) (hden : 0 < den)
    (h : InInterval units num den) : roundRatio num den = units := by
  cases h with
  | @above r hnum hr =>
    have hwhole : spacing units * (units / spacing units) = units := Nat.mul_div_cancel' hgrid
    have hgap : 0 < spacing units * den := Nat.mul_pos (spacing_pos units) hden
    have hle := hr.le
    have hstep : spacing (num / den) = spacing units := by
      refine spacing_of_above hpos hgrid ((Nat.le_div_iff_mul_le hden).mpr (by omega)) ?_
      rw [Nat.div_lt_iff_lt_mul hden, Nat.add_mul]
      omega
    have hround := roundRatio_of_above hden hstep (m := units / spacing units) (r := r)
      (by rw [hnum, Nat.mul_comm den, ← Nat.mul_assoc, Nat.mul_comm _ (spacing units), hwhole])
      (by rwa [Nat.mul_comm den])
    rw [hround, hwhole]
  | @below r hrpos hnum hr =>
    have hle := hr.le
    have hstep : spacing (num / den) = gapBelow units := by
      refine spacing_of_below hgrid ((Nat.div_lt_iff_lt_mul hden).mpr (by omega)) ?_
      have hquotient : units - gapBelow units ≤ num / den := by
        rw [Nat.le_div_iff_mul_le hden, Nat.sub_mul]
        omega
      omega
    obtain ⟨m, hm, heven⟩ := exists_eq_gapBelow_mul hgrid hpos
    have hround := roundRatio_of_below hstep (m := m) hrpos
      (by rw [hnum]; nth_rewrite 1 [hm]; ring)
      (by rw [Nat.mul_comm den]; exact hr.imp_right (And.imp_right heven))
    rw [hround, ← hm]

/-! ## Decimals as magnitudes -/

/-- The magnitude of the format nearest to `n · 10 ^ power`. -/
def roundDecimal (n : Nat) (power : Int) : Nat :=
  roundRatio (n * (one * tenPow power.toNat)) (tenPow (-power).toNat)

theorem tenPow_mul_toNat (k : Nat) (power : Int) :
    tenPow k * tenPow power.toNat * tenPow (-(power + k)).toNat =
      tenPow (power + k).toNat * tenPow (-power).toNat := by
  simp only [tenPow_eq, ← Nat.pow_add]
  congr 1
  omega

theorem roundDecimal_mul_tenPow (n k : Nat) (power : Int) :
    roundDecimal (n * tenPow k) power = roundDecimal n (power + k) := by
  refine roundRatio_congr (tenPow_pos _) (tenPow_pos _) ?_
  calc n * tenPow k * (one * tenPow power.toNat) * tenPow (-(power + k)).toNat
      = n * one * (tenPow k * tenPow power.toNat * tenPow (-(power + k)).toNat) := by ring
    _ = n * (one * tenPow (power + k).toNat) * tenPow (-power).toNat := by
      rw [tenPow_mul_toNat]
      ring

theorem roundRatio_of_small (h : 2 * num < den) : roundRatio num den = 0 := by
  have hdiv : num / den = 0 := Nat.div_eq_of_lt (by omega)
  have hstep : spacing (num / den) = 1 := by rw [hdiv, spacing_of_lt (by decide)]
  exact roundRatio_of_above (by omega) hstep (m := 0) (r := num) (by omega) (.inl (by omega))

theorem roundDecimal_zero (power : Int) : roundDecimal 0 power = 0 := by
  rw [roundDecimal, Nat.zero_mul]
  exact roundRatio_of_small (tenPow_pos _)

theorem le_divNearest (num den : Nat) : num / den ≤ divNearest num den := by
  rw [divNearest]
  split_ifs <;> omega

theorem twoPow_le_roundRatio (hden : 0 < den) (h : 2 ^ k * den ≤ num) :
    2 ^ k ≤ roundRatio num den := by
  have hquotient : 2 ^ k ≤ num / den := (Nat.le_div_iff_mul_le hden).mpr h
  have hne : num / den ≠ 0 := Nat.ne_of_gt ((Nat.two_pow_pos k).trans_le hquotient)
  have hlog : k ≤ (num / den).log2 := (Nat.le_log2 hne).mpr hquotient
  obtain ⟨m, hm⟩ : spacing (num / den) ∣ 2 ^ (num / den).log2 := spacing_dvd_twoPow le_rfl
  have hnum : m * (den * spacing (num / den)) ≤ num := by
    calc m * (den * spacing (num / den)) = 2 ^ (num / den).log2 * den := by rw [hm]; ring
      _ ≤ num / den * den := Nat.mul_le_mul_right den (Nat.log2_self_le hne)
      _ ≤ num := Nat.div_mul_le_self num den
  have hpos : 0 < den * spacing (num / den) := Nat.mul_pos hden (spacing_pos _)
  calc 2 ^ k ≤ 2 ^ (num / den).log2 := Nat.pow_le_pow_right (by decide) hlog
    _ = spacing (num / den) * m := hm
    _ ≤ roundRatio num den := Nat.mul_le_mul_left _
      (((Nat.le_div_iff_mul_le hpos).mpr hnum).trans (le_divNearest _ _))

theorem limit_le_roundDecimal {power : Int} (hn : 10 ^ k ≤ n) (hpower : 400 ≤ k + power) :
    limit ≤ roundDecimal n power := by
  rw [limit, twoPow_eq]
  refine twoPow_le_roundRatio (tenPow_pos _) ?_
  have hlimit : 2 ^ 2098 ≤ one * 10 ^ 400 := by decide +kernel
  have hpowers : 10 ^ 400 * 10 ^ (-power).toNat ≤ 10 ^ k * 10 ^ power.toNat := by
    rw [← Nat.pow_add, ← Nat.pow_add]
    exact Nat.pow_le_pow_right (by decide) (by omega)
  simp only [tenPow_eq]
  calc 2 ^ 2098 * 10 ^ (-power).toNat ≤ one * 10 ^ 400 * 10 ^ (-power).toNat :=
        Nat.mul_le_mul_right _ hlimit
    _ = one * (10 ^ 400 * 10 ^ (-power).toNat) := Nat.mul_assoc _ _ _
    _ ≤ one * (10 ^ k * 10 ^ power.toNat) := Nat.mul_le_mul_left _ hpowers
    _ = 10 ^ k * (one * 10 ^ power.toNat) := Nat.mul_left_comm _ _ _
    _ ≤ n * (one * 10 ^ power.toNat) := Nat.mul_le_mul_right _ hn

theorem roundDecimal_eq_zero {power : Int} (hn : n ≤ 10 ^ k) (hpower : k + power ≤ -400) :
    roundDecimal n power = 0 := by
  refine roundRatio_of_small ?_
  have hone : 2 * one < 10 ^ 400 := by decide +kernel
  have hpowers : 10 ^ k * 10 ^ power.toNat * 10 ^ 400 ≤ 10 ^ (-power).toNat := by
    rw [← Nat.pow_add, ← Nat.pow_add]
    exact Nat.pow_le_pow_right (by decide) (by omega)
  have hpos : 0 < 10 ^ k * 10 ^ power.toNat :=
    Nat.mul_pos (Nat.pow_pos (by decide)) (Nat.pow_pos (by decide))
  simp only [tenPow_eq]
  calc 2 * (n * (one * 10 ^ power.toNat)) ≤ 2 * (10 ^ k * (one * 10 ^ power.toNat)) :=
        Nat.mul_le_mul_left 2 (Nat.mul_le_mul_right _ hn)
    _ = 10 ^ k * 10 ^ power.toNat * (2 * one) := by ring
    _ < 10 ^ k * 10 ^ power.toNat * 10 ^ 400 := Nat.mul_lt_mul_of_pos_left hone hpos
    _ ≤ 10 ^ (-power).toNat := hpowers

/-- A decimal is read as the nearest number of the format, also where its size alone decides. -/
theorem ofDecimal_eq {digits : List Nat} (h : ∀ d ∈ digits, d < 10) (negative : Bool)
    (exponent : Int) :
    ofDecimal negative digits exponent =
      if roundDecimal (Numeral.valueOf digits) exponent < limit then
        .finite negative (roundDecimal (Numeral.valueOf digits) exponent)
      else .infinite negative := by
  rw [ofDecimal, ← Numeral.valueOf_dropWhile digits]
  have hsignificant : ∀ d ∈ digits.dropWhile (· == 0), d < 10 :=
    fun d hd ↦ h d (List.dropWhile_subset _ hd)
  cases hdigits : digits.dropWhile (· == 0) with
  | nil =>
    have hzero : Numeral.valueOf [] = 0 := rfl
    rw [hzero, roundDecimal_zero, if_pos isMagnitude_zero.lt_limit]
    rfl
  | cons d ds =>
    rw [hdigits] at hsignificant
    have hd : 0 < d := by
      have hhead := List.head?_dropWhile_not (· == 0) digits
      rw [hdigits] at hhead
      simpa [Nat.pos_iff_ne_zero] using hhead
    have hlow := Numeral.pow_le_valueOf hd ds
    have hhigh := Numeral.valueOf_lt hsignificant
    rw [List.length_cons] at hhigh
    simp only [List.isEmpty_cons, Bool.false_eq_true, if_false, List.length_cons]
    by_cases hlarge : 400 < ((ds.length + 1 : Nat) : Int) + exponent
    · rw [if_pos hlarge, if_neg (Nat.not_lt.mpr (limit_le_roundDecimal hlow (by omega)))]
    by_cases hsmall : ((ds.length + 1 : Nat) : Int) + exponent < -400
    · rw [if_neg hlarge, if_pos hsmall, roundDecimal_eq_zero hhigh.le (by omega),
        if_pos isMagnitude_zero.lt_limit]
    rw [if_neg hlarge, if_neg hsmall, roundDecimal]
    rcases le_or_gt 0 exponent with hnonneg | hneg
    · rw [if_pos hnonneg, ofRatio, Int.toNat_of_nonpos (by omega : -exponent ≤ 0), Nat.mul_assoc,
        Nat.mul_comm (tenPow _) one, tenPow_eq 0, Nat.pow_zero]
    · rw [if_neg (by omega), ofRatio, Int.toNat_of_nonpos hneg.le, tenPow_eq 0, Nat.pow_zero,
        Nat.mul_one]

/-! ## The search for a decimal -/

theorem tenPow_toNat_neg (power : Int) :
    (if 0 ≤ power then 1 else tenPow (-power).toNat) = tenPow (-power).toNat := by
  split_ifs with h
  · rw [Int.toNat_of_nonpos (by omega), tenPow_eq, Nat.pow_zero]
  · rfl

theorem tenPow_toNat (power : Int) :
    (if 0 ≤ power then tenPow power.toNat else 1) = tenPow power.toNat := by
  split_ifs with h
  · rfl
  · rw [Int.toNat_of_nonpos (by omega), tenPow_eq, Nat.pow_zero]

theorem mul_tenPow_toNat (n : Nat) (power : Int) :
    (if 0 ≤ power then n * tenPow power.toNat else n) = n * tenPow power.toNat := by
  split_ifs with h
  · rfl
  · rw [Int.toNat_of_nonpos (by omega), tenPow_eq, Nat.pow_zero, Nat.mul_one]

theorem rounds_iff {power : Int} :
    rounds units d power = true ↔
      InInterval units (d * (one * tenPow power.toNat)) (tenPow (-power).toNat) := by
  rw [rounds]
  simp only [tenPow_toNat_neg, mul_tenPow_toNat]
  generalize d * (one * tenPow power.toNat) = num
  generalize tenPow (-power).toNat = den
  simp only [Bool.or_eq_true, decide_eq_true_eq, Bool.and_eq_true, beq_iff_eq]
  split_ifs with hle
  · constructor
    · exact fun h ↦ .above (by omega) (h.imp_right And.symm)
    · intro h
      cases h with
      | @above r hnum hr =>
        rw [show num - units * den = r by omega]
        exact hr.imp_right And.symm
      | below hpos hnum => omega
  · constructor
    · exact fun h ↦ .below (r := units * den - num) (by omega) (by omega) (h.imp_right And.symm)
    · intro h
      cases h with
      | above hnum => omega
      | @below r hpos hnum hr =>
        rw [show units * den - num = r by omega]
        exact hr.imp_right And.symm

theorem divNearest_near (num : Nat) (hden : 0 < den) :
    ∃ r, 2 * r ≤ den ∧
      (divNearest num den * den = num + r ∨ divNearest num den * den + r = num) := by
  have hsum := Nat.div_add_mod num den
  have hlt := Nat.mod_lt num hden
  rw [divNearest]
  split_ifs with hlow hhigh
  · exact ⟨num % den, by omega, .inr (by rw [Nat.mul_comm]; omega)⟩
  · exact ⟨den - num % den, by omega, .inl (by rw [Nat.add_one_mul, Nat.mul_comm]; omega)⟩
  · rcases Nat.mod_two_eq_zero_or_one (num / den) with heven | hodd
    · exact ⟨num % den, by omega, .inr (by rw [heven, Nat.add_zero, Nat.mul_comm]; omega)⟩
    · exact ⟨den - num % den, by omega, .inl (by rw [hodd, Nat.add_one_mul, Nat.mul_comm]; omega)⟩

theorem rounds_of_nearestDecimal? {power : Int} (h : nearestDecimal? units power = some d) :
    rounds units d power = true := by
  have hcases (a b : Nat) (h : (if rounds units a power then some a
      else if rounds units b power then some b else none) = some d) :
      rounds units d power = true := by
    split_ifs at h with ha hb
    · exact Option.some.inj h ▸ ha
    · exact Option.some.inj h ▸ hb
  rw [nearestDecimal?] at h
  exact hcases _ _ h

/-- A grid of decimals finer than the gap below a magnitude has a point in its interval. -/
theorem exists_nearestDecimal? {power : Int}
    (h : one * tenPow power.toNat < gapBelow units * tenPow (-power).toNat) :
    ∃ d, nearestDecimal? units power = some d := by
  obtain ⟨r, hr, hnear⟩ := divNearest_near (units * tenPow (-power).toNat)
    (Nat.mul_pos one_pos (tenPow_pos power.toNat))
  have hgap := Nat.mul_le_mul_right (tenPow (-power).toNat) (gapBelow_le units)
  have hrounds : rounds units (divNearest (units * tenPow (-power).toNat)
      (one * tenPow power.toNat)) power = true := by
    rw [rounds_iff]
    rcases hnear with habove | hbelow
    · exact .above habove (.inl (by omega))
    · rcases Nat.eq_zero_or_pos r with rfl | hpos
      · exact .above (r := 0) (by omega) (.inl (by omega))
      · exact .below hpos hbelow (.inl (by omega))
  refine ⟨divNearest (units * tenPow (-power).toNat) (one * tenPow power.toNat), ?_⟩
  simp only [nearestDecimal?, tenPow_toNat_neg, tenPow_toNat]
  rw [if_pos hrounds]

/-- The search finds a decimal if there is one on a grid that it comes to. -/
theorem searchDecimal_eq {fuel : Nat} (hk : k < fuel) {power : Int}
    (h : nearestDecimal? units (power - k) = some d) :
    nearestDecimal? units (searchDecimal units fuel power).2 =
      some (searchDecimal units fuel power).1 := by
  induction fuel generalizing power k with
  | zero => omega
  | succ fuel ih =>
    rw [searchDecimal]
    cases hfirst : nearestDecimal? units power with
    | some e => exact hfirst
    | none =>
      cases k with
      | zero =>
        rw [Int.natCast_zero, Int.sub_zero, hfirst] at h
        cases h
      | succ k =>
        exact ih (k := k) (by omega) (by rwa [Int.sub_sub, Int.add_comm 1, ← Int.natCast_succ])

theorem leadingZeros_spec {fuel : Nat} (h : one ≤ units * tenPow (k + fuel)) :
    one ≤ units * tenPow (leadingZeros units fuel k) := by
  induction fuel generalizing k with
  | zero => exact h
  | succ fuel ih =>
    rw [leadingZeros]
    split_ifs with hk
    · exact hk
    · exact ih (by rwa [Nat.add_right_comm, Nat.add_assoc])

theorem leadingPower_le (h : 0 < units) :
    one * tenPow (leadingPower units).toNat ≤ units * tenPow (-leadingPower units).toNat := by
  rw [leadingPower]
  split_ifs with hone
  · have hwhole : 0 < units / one := Nat.div_pos hone one_pos
    have hlength := Nat.length_toDigits_pos (b := 10) (n := units / one)
    have hpow : 10 ^ ((Nat.toDigits 10 (units / one)).length - 1) ≤ units / one := by
      rcases Nat.eq_zero_or_pos ((Nat.toDigits 10 (units / one)).length - 1) with hzero | hpos
      · rw [hzero]
        exact hwhole
      · have hiff := Nat.length_toDigits_le_iff (n := units / one) (by decide : 1 < 10) hpos
        omega
    rw [Int.toNat_of_nonpos (by omega : -(((Nat.toDigits 10 (units / one)).length : Int) - 1) ≤ 0),
      tenPow_eq 0, Nat.pow_zero, Nat.mul_one, ← Nat.cast_pred hlength, Int.toNat_natCast, tenPow_eq,
      Nat.mul_comm]
    exact (Nat.le_div_iff_mul_le one_pos).mp hpow
  · have hfuel : one ≤ units * tenPow (0 + 400) := by
      have hten : one ≤ tenPow (0 + 400) := by decide +kernel
      exact hten.trans (Nat.le_mul_of_pos_left _ h)
    rw [Int.toNat_of_nonpos (by omega), Int.neg_neg, Int.toNat_natCast, tenPow_eq 0, Nat.pow_zero,
      Nat.mul_one]
    exact leadingZeros_spec hfuel

/-- Sixteen places behind the first digit the decimals are finer than the format. -/
theorem lt_gapBelow_of_leadingPower (h : 0 < units) {power : Int}
    (hpower : power + (16 : Nat) = leadingPower units) :
    one * tenPow power.toNat < gapBelow units * tenPow (-power).toNat := by
  have hlead := leadingPower_le h
  have hgap : units < tenPow 16 * gapBelow units := lt_mul_gapBelow h
  have hshift := tenPow_mul_toNat 16 power
  have hpositive := tenPow_pos (-power).toNat
  have hpositive' := tenPow_pos (-leadingPower units).toNat
  rw [hpower] at hshift
  generalize leadingPower units = e at hlead hshift hpositive'
  refine Nat.lt_of_mul_lt_mul_right (a := tenPow 16 * tenPow (-e).toNat) ?_
  calc one * tenPow power.toNat * (tenPow 16 * tenPow (-e).toNat)
      = one * (tenPow 16 * tenPow power.toNat * tenPow (-e).toNat) := by ring
    _ = one * tenPow e.toNat * tenPow (-power).toNat := by rw [hshift, Nat.mul_assoc]
    _ ≤ units * tenPow (-e).toNat * tenPow (-power).toNat := Nat.mul_le_mul_right _ hlead
    _ < tenPow 16 * gapBelow units * tenPow (-e).toNat * tenPow (-power).toNat := by gcongr
    _ = gapBelow units * tenPow (-power).toNat * (tenPow 16 * tenPow (-e).toNat) := by ring

/-- Seventeen digits are always enough. -/
theorem nearestDecimal?_searchDecimal (h : 0 < units) :
    nearestDecimal? units (searchDecimal units 20 (leadingPower units)).2 =
      some (searchDecimal units 20 (leadingPower units)).1 := by
  have hpower : leadingPower units - (16 : Nat) + (16 : Nat) = leadingPower units := by omega
  obtain ⟨d, hd⟩ := exists_nearestDecimal? (lt_gapBelow_of_leadingPower h hpower)
  exact searchDecimal_eq (by decide) hd

/-! ## The digits of the shortest decimal -/

/-- Whether a text is a row of digits as numbers are written with: without a zero in front. -/
structure IsSignificand (digits : Text) : Prop where
  ne_nil : digits ≠ []
  exists_digit : ∀ c ∈ digits, ∃ d < 10, c = Nat.digitChar d
  head?_ne : digits.head? ≠ some '0'

theorem isSignificand_ofNat (h : 0 < n) : IsSignificand (Numeral.ofNat n) := by
  refine ⟨Numeral.ofNat_ne_nil n, fun c ↦ Numeral.exists_digit_of_mem, ?_⟩
  rw [Numeral.ofNat]
  induction n using Nat.strong_induction_on with
  | _ n ih =>
    rcases Nat.lt_or_ge n 10 with hn | hn
    · have hall : ∀ d : Fin 10, 0 < d.val → some (Nat.digitChar d.val) ≠ some '0' := by decide
      rw [Nat.toDigits_of_lt_base hn]
      exact hall ⟨n, hn⟩ h
    · rw [Nat.toDigits_of_base_le (by decide) hn, List.head?_append_of_ne_nil _ Nat.toDigits_ne_nil]
      exact ih (n / 10) (Nat.div_lt_self h (by decide)) (by omega)

theorem exists_zeros (t : Text) :
    ∃ k, t = (t.reverse.dropWhile (· == '0')).reverse ++ List.replicate k '0' := by
  have hzeros := List.eq_replicate_of_mem (l := t.reverse.takeWhile (· == '0')) (a := '0')
    fun c hc ↦ by simpa using List.mem_takeWhile_imp hc
  refine ⟨(t.reverse.takeWhile (· == '0')).length, ?_⟩
  have hsplit := congrArg List.reverse
    (List.takeWhile_append_dropWhile (p := (· == '0')) (l := t.reverse))
  rw [hzeros] at hsplit
  simpa using hsplit.symm

theorem exists_shortest (h : 0 < units) :
    ∃ d power k, rounds units d power = true ∧
      Numeral.ofNat d = (shortest units).1 ++ List.replicate k '0' ∧
      (shortest units).2 = power + (Numeral.ofNat d).length := by
  have hsearch := nearestDecimal?_searchDecimal h
  rw [shortest]
  generalize searchDecimal units 20 (leadingPower units) = found at hsearch ⊢
  obtain ⟨d, power⟩ := found
  obtain ⟨k, hk⟩ := exists_zeros (Numeral.ofNat d)
  exact ⟨d, power, k, rounds_of_nearestDecimal? hsearch, hk, rfl⟩

theorem pos_of_rounds {power : Int} (hpos : 0 < units) (h : rounds units d power = true) :
    0 < d := by
  refine Nat.pos_of_ne_zero ?_
  rintro rfl
  have hden := tenPow_pos (-power).toNat
  have hgap := Nat.mul_le_mul_right (tenPow (-power).toNat)
    ((gapBelow_le units).trans (spacing_le hpos))
  have hexact : 0 < units * tenPow (-power).toNat := Nat.mul_pos hpos hden
  cases rounds_iff.mp h with
  | above hnum => omega
  | below hrpos hnum hr =>
    have hle := hr.le
    omega

theorem isSignificand_shortest (h : 0 < units) : IsSignificand (shortest units).1 := by
  obtain ⟨d, power, k, hrounds, hdigits, -⟩ := exists_shortest h
  have hd := isSignificand_ofNat (pos_of_rounds h hrounds)
  rw [hdigits] at hd
  have hne : (shortest units).1 ≠ [] := by
    intro hnil
    rw [hnil, List.nil_append] at hd
    cases k with
    | zero => exact hd.ne_nil rfl
    | succ k => exact hd.head?_ne rfl
  refine ⟨hne, fun c hc ↦ hd.exists_digit c (List.mem_append_left _ hc), ?_⟩
  have hhead := hd.head?_ne
  rwa [List.head?_append_of_ne_nil _ hne] at hhead

/-- The shortest decimal is rounded to the number that it was found for. -/
theorem roundDecimal_shortest (hgrid : spacing units ∣ units) (hpos : 0 < units) :
    roundDecimal (Numeral.valueOf (Numeral.digitValues (shortest units).1))
      ((shortest units).2 - (shortest units).1.length) = units := by
  obtain ⟨d, power, k, hrounds, hdigits, hpoint⟩ := exists_shortest hpos
  have hvalue : d = Numeral.valueOf (Numeral.digitValues (shortest units).1) * tenPow k := by
    have hd := Numeral.valueOf_ofNat d
    rw [hdigits, Numeral.valueOf_digitValues_append, Numeral.valueOf_digitValues_replicate,
      List.length_replicate, Nat.add_zero] at hd
    exact hd.symm
  have hplace : (shortest units).2 - (shortest units).1.length = power + k := by
    rw [hpoint, hdigits, List.length_append, List.length_replicate]
    omega
  rw [hplace, ← roundDecimal_mul_tenPow, ← hvalue]
  exact roundRatio_of_inInterval hgrid hpos (tenPow_pos _) (rounds_iff.mp hrounds)

end Binary64

end PageCompiler
