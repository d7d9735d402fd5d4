import PageCompiler.Proofs.ShortestDecimals

/-!
# Written numbers

How a number is read from its text, and that the number which was written is read. `NumberParts`
stands between the two: the digits before the point, those behind it and the power of ten. Reading
finds the parts of a text (`NumberParts.readParts_text`), and every layout of a decimal is the text
of some parts that stand for it (`exists_parts_positional`, `exists_parts_scientific`). The number
itself comes in only at the end (`exists_parts_magnitude`).

A number goes on as long as it can, so it is read back only in front of a text that does not begin
with a digit, a point or a power of ten (`Ends`).
-/

namespace PageCompiler

variable {c : Char} {t : Text} {n : Nat}

namespace Json

/-! ## The reader -/

/-- Reads something that may be missing. -/
def optional {α : Type} (read : Reader α) (t : Text) : Option α × Text :=
  match read t with
  | none => (none, t)
  | some (a, rest) => (some a, rest)

/-- The parts of a written number behind its sign. -/
structure NumberParts where
  /-- The digits before the point. -/
  whole : Text
  /-- The digits behind the point, if there is one. -/
  fraction : Option Text
  /-- The power of ten, if there is one: whether it is negative, and its digits. -/
  exponent : Option (Bool × Text)

def readFraction : Reader Text := fun t ↦ (Text.after? ['.'] t).bind (Text.run? Char.isDigit)

def readExponent : Reader (Bool × Text) := fun t ↦ do
  let (_, u) ← Text.char? (fun c ↦ c == 'e' || c == 'E') t
  let (sign, v) := optional (Text.char? fun c ↦ c == '-' || c == '+') u
  let (digits, rest) ← Text.run? Char.isDigit v
  some ((sign == some '-', digits), rest)

/-- Reads a number without a sign. A zero in front of other digits is refused. -/
def readParts : Reader NumberParts := fun t ↦ do
  let (whole, u) ← Text.run? Char.isDigit t
  if whole.head? == some '0' && whole.length != 1 then none
  else
    let (fraction, v) := optional readFraction u
    let (exponent, rest) := optional readExponent v
    some (⟨whole, fraction, exponent⟩, rest)

def NumberParts.digits (parts : NumberParts) : List Nat :=
  Numeral.digitValues (parts.whole ++ parts.fraction.getD [])

/-- The power of ten of the last digit. -/
def NumberParts.power (parts : NumberParts) : Int :=
  let exponent : Int := parts.exponent.elim 0 fun (negative, digits) ↦
    let n : Int := Numeral.valueOf (Numeral.digitValues digits)
    if negative then -n else n
  exponent - (parts.fraction.getD []).length

/-- The number that the parts stand for: an integer if there is nothing but digits. -/
def NumberParts.value (parts : NumberParts) (negative : Bool) : Json :=
  if parts.fraction.isNone && parts.exponent.isNone then
    let n : Int := Numeral.valueOf parts.digits
    .int (if negative then -n else n)
  else .float (Binary64.ofDecimal negative parts.digits parts.power)

def readNumber : Reader Json := fun t ↦
  let (sign, u) := optional (Text.char? (· == '-')) t
  (readParts u).map fun (parts, rest) ↦ (parts.value sign.isSome, rest)

/-! ## Numbers without a sign -/

/-- Whether a number may go on with a character. -/
def continuesNumber (c : Char) : Bool := c.isDigit || c == '.' || c == 'e' || c == 'E'

/-- Whether a number in front of this text ends where the text begins. -/
def Ends (rest : Text) : Prop := ∀ c, rest.head? = some c → continuesNumber c = false

theorem continuesNumber_eq_false_iff :
    continuesNumber c = false ↔ c.isDigit = false ∧ c ≠ '.' ∧ c ≠ 'e' ∧ c ≠ 'E' := by
  simp [continuesNumber, and_assoc]

def IsDigits (t : Text) : Prop := t ≠ [] ∧ ∀ c ∈ t, c.isDigit = true

instance (t : Text) : Decidable (IsDigits t) := inferInstanceAs (Decidable (_ ∧ _))

theorem IsDigits.run? (h : IsDigits t) (rest : Text)
    (hrest : ∀ c, rest.head? = some c → c.isDigit = false) :
    Text.run? Char.isDigit (t ++ rest) = some (t, rest) := Text.run?_append h.1 h.2 hrest

namespace NumberParts

/-- A point and the digits behind it. -/
def fractionText (fraction : Option Text) : Text := fraction.elim [] ('.' :: ·)

/-- A power of ten. -/
def exponentText (exponent : Option (Bool × Text)) : Text :=
  exponent.elim [] fun (negative, digits) ↦ 'e' :: (if negative then '-' else '+') :: digits

/-- A number without a sign, as it is written. -/
def text (parts : NumberParts) : Text :=
  parts.whole ++ (fractionText parts.fraction ++ exponentText parts.exponent)

structure IsWellFormed (parts : NumberParts) : Prop where
  whole : IsDigits parts.whole
  /-- There is no zero in front of them. -/
  length_of_zero : parts.whole.head? = some '0' → parts.whole.length = 1
  fraction : ∀ digits ∈ parts.fraction, IsDigits digits
  exponent : ∀ power ∈ parts.exponent, IsDigits power.2

variable {parts : NumberParts} {rest : Text}

theorem optional_readExponent {exponent : Option (Bool × Text)}
    (h : ∀ power ∈ exponent, IsDigits power.2) (hrest : Ends rest) :
    optional readExponent (exponentText exponent ++ rest) = (exponent, rest) := by
  cases exponent with
  | none =>
    have hread : readExponent rest = none := by
      cases rest with
      | nil => rfl
      | cons c cs =>
        obtain ⟨-, -, hsmall, hcapital⟩ := continuesNumber_eq_false_iff.mp (hrest c rfl)
        simp [readExponent, Text.char?, hsmall, hcapital]
    rw [exponentText, Option.elim_none, List.nil_append, optional, hread]
  | some power =>
    obtain ⟨negative, digits⟩ := power
    have hdigits := (h _ rfl).run? rest fun c hc ↦
      (continuesNumber_eq_false_iff.mp (hrest c hc)).1
    have hread : readExponent (exponentText (some (negative, digits)) ++ rest) =
        some ((negative, digits), rest) := by
      cases negative <;> simp [readExponent, exponentText, Text.char?, optional, hdigits]
    rw [optional, hread]

theorem head?_exponentText {exponent : Option (Bool × Text)} (hrest : Ends rest)
    (hc : (exponentText exponent ++ rest).head? = some c) : c.isDigit = false ∧ c ≠ '.' := by
  cases exponent with
  | none =>
    obtain ⟨hdigit, hpoint, -⟩ := continuesNumber_eq_false_iff.mp (hrest c hc)
    exact ⟨hdigit, hpoint⟩
  | some power =>
    obtain rfl : 'e' = c := Option.some.inj hc
    exact ⟨by decide, by decide⟩

theorem optional_readFraction {fraction : Option Text} (h : ∀ digits ∈ fraction, IsDigits digits)
    (hrest : ∀ c, rest.head? = some c → c.isDigit = false ∧ c ≠ '.') :
    optional readFraction (fractionText fraction ++ rest) = (fraction, rest) := by
  cases fraction with
  | none =>
    have hread : readFraction rest = none := by
      cases rest with
      | nil => rfl
      | cons c cs => rw [readFraction, Text.after?_of_ne (hrest c rfl).2, Option.bind_none]
    rw [fractionText, Option.elim_none, List.nil_append, optional, hread]
  | some digits =>
    have hread : readFraction (fractionText (some digits) ++ rest) = some (digits, rest) :=
      (h _ rfl).run? rest fun c hc ↦ (hrest c hc).1
    rw [optional, hread]

theorem head?_fractionText {fraction : Option Text} {exponent : Option (Bool × Text)}
    (hrest : Ends rest)
    (hc : (fractionText fraction ++ (exponentText exponent ++ rest)).head? = some c) :
    c.isDigit = false := by
  cases fraction with
  | none => exact (head?_exponentText hrest hc).1
  | some digits =>
    obtain rfl : '.' = c := Option.some.inj hc
    decide

theorem readParts_text (h : parts.IsWellFormed) (hrest : Ends rest) :
    readParts (parts.text ++ rest) = some (parts, rest) := by
  have hexponent := optional_readExponent h.exponent hrest
  have hfraction : optional readFraction
      (fractionText parts.fraction ++ (exponentText parts.exponent ++ rest)) =
        (parts.fraction, exponentText parts.exponent ++ rest) :=
    optional_readFraction h.fraction fun c hc ↦ head?_exponentText hrest hc
  have hwhole := h.whole.run? (fractionText parts.fraction ++
    (exponentText parts.exponent ++ rest)) fun c hc ↦ head?_fractionText hrest hc
  have hzero : ¬ (parts.whole.head? == some '0' && parts.whole.length != 1) = true := by
    simp only [Bool.and_eq_true, beq_iff_eq, bne_iff_ne, not_and, not_not]
    exact h.length_of_zero
  simp only [readParts, text, List.append_assoc, hwhole, Option.bind_eq_bind, Option.bind_some,
    if_neg hzero, hfraction, hexponent]

end NumberParts

/-! ## The layout of numbers -/

theorem isDigit_digitChar {d : Nat} (h : d < 10) : (Nat.digitChar d).isDigit = true := by
  have hall : ∀ d : Fin 10, (Nat.digitChar d.val).isDigit = true := by decide
  exact hall ⟨d, h⟩

theorem exists_digit_of_isDigit (h : c.isDigit = true) : ∃ d < 10, c = Nat.digitChar d := by
  have hcode : 48 ≤ c.toNat ∧ c.toNat ≤ 57 := by
    simp only [Char.isDigit, Bool.and_eq_true, decide_eq_true_eq] at h
    exact ⟨UInt32.le_iff_toNat_le.mp h.1, UInt32.le_iff_toNat_le.mp h.2⟩
  have hall : ∀ d : Fin 10, Char.ofNat (48 + d.val) = Nat.digitChar d.val := by decide
  refine ⟨c.toNat - 48, by omega, ?_⟩
  rw [← hall ⟨c.toNat - 48, by omega⟩, show 48 + (c.toNat - 48) = c.toNat by omega,
    Char.ofNat_toNat]

theorem lt_ten_of_mem_digitValues (h : ∀ c ∈ t, c.isDigit = true) :
    ∀ d ∈ Numeral.digitValues t, d < 10 := by
  intro d hd
  obtain ⟨c, hc, rfl⟩ := List.mem_map.mp hd
  obtain ⟨e, he, rfl⟩ := exists_digit_of_isDigit (h c hc)
  rwa [digitValue?_digitChar he]

theorem isDigits_ofNat (n : Nat) : IsDigits (Numeral.ofNat n) :=
  ⟨Numeral.ofNat_ne_nil n, fun _ ↦ Nat.isDigit_of_mem_toDigits (by decide) (by decide)⟩

theorem IsDigits.replicate_append (h : IsDigits t) (k : Nat) :
    IsDigits (List.replicate k '0' ++ t) := by
  refine ⟨List.append_ne_nil_of_right_ne_nil _ h.1, List.forall_mem_append.mpr ⟨?_, h.2⟩⟩
  exact fun c hc ↦ List.eq_of_mem_replicate hc ▸ rfl

theorem IsDigits.append_replicate (h : IsDigits t) (k : Nat) :
    IsDigits (t ++ List.replicate k '0') := by
  refine ⟨List.append_ne_nil_of_left_ne_nil h.1 _, List.forall_mem_append.mpr ⟨h.2, ?_⟩⟩
  exact fun c hc ↦ List.eq_of_mem_replicate hc ▸ rfl

namespace NumberParts

theorem IsWellFormed.isDigit {parts : NumberParts} (h : parts.IsWellFormed) :
    ∀ c ∈ parts.whole ++ parts.fraction.getD [], c.isDigit = true := by
  refine List.forall_mem_append.mpr ⟨h.whole.2, ?_⟩
  cases hfraction : parts.fraction with
  | none => exact fun c hc ↦ by cases hc
  | some digits => exact (h.fraction digits hfraction).2

/-- Whether the parts are those of a number with a point or a power of ten, and one that is rounded
like `n · 10 ^ power`. -/
structure Spells (parts : NumberParts) (n : Nat) (power : Int) : Prop
    extends parts.IsWellFormed where
  /-- There is a point or a power of ten. -/
  isFloat : (parts.fraction.isNone && parts.exponent.isNone) = false
  /-- It is the same number. -/
  round : Binary64.roundDecimal (Numeral.valueOf parts.digits) parts.power =
    Binary64.roundDecimal n power

theorem Spells.value_eq {parts : NumberParts} {units : Nat} {power : Int} (h : parts.Spells n power)
    (hround : Binary64.roundDecimal n power = units) (hlt : units < Binary64.limit)
    (negative : Bool) : parts.value negative = .float (.finite negative units) := by
  have hdigits : ∀ d ∈ parts.digits, d < 10 := lt_ten_of_mem_digitValues h.isDigit
  rw [value, h.isFloat, if_neg Bool.false_ne_true, Binary64.ofDecimal_eq hdigits, h.round, hround,
    if_pos hlt]

theorem text_positional (whole fraction : Text) :
    text ⟨whole, some fraction, none⟩ = whole ++ '.' :: fraction := by
  simp only [text, fractionText, exponentText, Option.elim, List.append_nil]

theorem spells_positional {whole fraction : Text} {power : Int} (hwhole : IsDigits whole)
    (hzero : whole.head? = some '0' → whole.length = 1) (hfraction : IsDigits fraction)
    (hround : Binary64.roundDecimal (Numeral.valueOf (Numeral.digitValues (whole ++ fraction)))
      (-fraction.length) = Binary64.roundDecimal n power) :
    Spells ⟨whole, some fraction, none⟩ n power where
  whole := hwhole
  length_of_zero := hzero
  fraction := fun _ hdigits ↦ Option.some.inj hdigits ▸ hfraction
  exponent := fun _ hpower ↦ by cases hpower
  isFloat := rfl
  round := by
    rw [← hround]
    simp only [digits, NumberParts.power, Option.getD_some, Option.elim, Int.zero_sub]

theorem text_scientific (whole : Text) (fraction : Option Text) (power : Int) (exponent : Text) :
    text ⟨whole, fraction, some (power < 0, exponent)⟩ =
      whole ++ fractionText fraction ++ ['e', if power < 0 then '-' else '+'] ++ exponent := by
  simp [text, exponentText]

theorem spells_scientific {whole exponent : Text} {fraction : Option Text} {power last : Int}
    (hwhole : IsDigits whole) (hzero : whole.head? = some '0' → whole.length = 1)
    (hfraction : ∀ digits ∈ fraction, IsDigits digits) (hexponent : IsDigits exponent)
    (hpower : Numeral.valueOf (Numeral.digitValues exponent) = power.natAbs)
    (hround : Binary64.roundDecimal (Numeral.valueOf (Numeral.digitValues
      (whole ++ fraction.getD []))) (power - (fraction.getD []).length) =
        Binary64.roundDecimal n last) :
    Spells ⟨whole, fraction, some (power < 0, exponent)⟩ n last where
  whole := hwhole
  length_of_zero := hzero
  fraction := hfraction
  exponent := fun _ hmem ↦ Option.some.inj hmem ▸ hexponent
  isFloat := by simp
  round := by
    have hsigned : (if power < 0 then -(power.natAbs : Int) else power.natAbs) = power := by
      split_ifs <;> omega
    rw [← hround]
    simp only [digits, NumberParts.power, Option.elim, hpower, decide_eq_true_eq, hsigned]

end NumberParts

section Layout

open Binary64 NumberParts

variable {digits : Text} (h : IsSignificand digits)

include h

theorem isDigits_of_isSignificand : IsDigits digits := by
  refine ⟨h.ne_nil, fun c hc ↦ ?_⟩
  obtain ⟨d, hd, rfl⟩ := h.exists_digit c hc
  exact isDigit_digitChar hd

/-- A decimal with its point among the digits, or with zeros between the digits and the point. -/
theorem exists_parts_positional (point : Int) :
    ∃ parts : NumberParts, DecimalLayout.positional digits point = parts.text ∧
      parts.Spells (Numeral.valueOf (Numeral.digitValues digits)) (point - digits.length) := by
  have hdigits := isDigits_of_isSignificand h
  rw [DecimalLayout.positional]
  split_ifs with hsmall hlarge
  -- The zeros in front do not count, and the point stands before them.
  · refine ⟨⟨['0'], some (List.replicate (-point).toNat '0' ++ digits), none⟩, ?_,
      spells_positional (by decide) (fun _ ↦ rfl) (hdigits.replicate_append _) ?_⟩
    · rw [text_positional]
      rfl
    · have hpower : -((List.replicate (-point).toNat '0' ++ digits).length : Int) =
          point - digits.length := by
        rw [List.length_append, List.length_replicate]
        omega
      have hzero : Numeral.valueOf (Numeral.digitValues ['0']) = 0 := rfl
      rw [hpower, Numeral.valueOf_digitValues_append, Numeral.valueOf_digitValues_append,
        Numeral.valueOf_digitValues_replicate, hzero]
      simp only [Nat.zero_mul, Nat.zero_add]
  -- One zero more than there are places up to the point.
  · refine ⟨⟨digits ++ List.replicate (point.toNat - digits.length) '0', some ['0'], none⟩, ?_,
      spells_positional (hdigits.append_replicate _) (fun hzero ↦ ?_) (by decide) ?_⟩
    · rw [text_positional]
      rfl
    · rw [List.head?_append_of_ne_nil _ h.ne_nil] at hzero
      exact absurd hzero h.head?_ne
    · have hpower :
          point - digits.length = -1 + ((point.toNat - digits.length + 1 : Nat) : Int) := by omega
      have hzeros : digits ++ List.replicate (point.toNat - digits.length) '0' ++ ['0'] =
          digits ++ List.replicate (point.toNat - digits.length + 1) '0' := by
        rw [List.append_assoc, ← List.replicate_succ']
      rw [hzeros, Numeral.valueOf_digitValues_append, Numeral.valueOf_digitValues_replicate,
        List.length_replicate, Nat.add_zero, hpower, ← roundDecimal_mul_tenPow]
      rfl
  · have hpoint : 0 < point.toNat := by omega
    refine ⟨⟨digits.take point.toNat, some (digits.drop point.toNat), none⟩, ?_,
      spells_positional ⟨?_, fun c hc ↦ hdigits.2 c (List.mem_of_mem_take hc)⟩ (fun hzero ↦ ?_)
        ⟨?_, fun c hc ↦ hdigits.2 c (List.mem_of_mem_drop hc)⟩ ?_⟩
    · rw [text_positional, List.append_assoc]
      rfl
    · simp [h.ne_nil]; omega
    · rw [List.head?_take, if_neg (by omega)] at hzero
      exact absurd hzero h.head?_ne
    · simpa using hlarge
    · have hpower : -((digits.drop point.toNat).length : Int) = point - digits.length := by
        rw [List.length_drop]
        omega
      rw [List.take_append_drop, hpower]

theorem exists_parts_scientific (layout : DecimalLayout) (point : Int) :
    ∃ parts : NumberParts, layout.scientific digits point = parts.text ∧
      parts.Spells (Numeral.valueOf (Numeral.digitValues digits)) (point - digits.length) := by
  have hdigits := isDigits_of_isSignificand h
  have hlength : 0 < digits.length := List.length_pos_of_ne_nil h.ne_nil
  rw [DecimalLayout.scientific]
  generalize hpadded : List.replicate (layout.exponentDigits -
    (Numeral.ofNat (point - 1).natAbs).length) '0' ++ Numeral.ofNat (point - 1).natAbs = padded
  have hexponent : IsDigits padded := hpadded ▸ (isDigits_ofNat _).replicate_append _
  have hvalue : Numeral.valueOf (Numeral.digitValues padded) = (point - 1).natAbs := by
    rw [← hpadded, Numeral.valueOf_digitValues_append, Numeral.valueOf_digitValues_replicate,
      Numeral.valueOf_ofNat, Nat.zero_mul, Nat.zero_add]
  by_cases hone : digits.length ≤ 1
  · rw [if_pos hone]
    refine ⟨⟨digits, none, some (point - 1 < 0, padded)⟩, ?_,
      spells_scientific hdigits (fun _ ↦ by omega) (fun _ hmem ↦ by cases hmem) hexponent hvalue ?_⟩
    · rw [text_scientific, fractionText, Option.elim_none, List.append_nil]
    · have hlast : point - digits.length = point - 1 := by omega
      rw [Option.getD_none, List.append_nil, List.length_nil, hlast, Int.natCast_zero, Int.sub_zero]
  · rw [if_neg hone]
    refine ⟨⟨digits.take 1, some (digits.drop 1), some (point - 1 < 0, padded)⟩, ?_,
      spells_scientific ⟨?_, fun c hc ↦ hdigits.2 c (List.mem_of_mem_take hc)⟩ (fun _ ↦ ?_)
        (fun _ hmem ↦ Option.some.inj hmem ▸
          ⟨?_, fun c hc ↦ hdigits.2 c (List.mem_of_mem_drop hc)⟩) hexponent hvalue ?_⟩
    · rw [text_scientific, fractionText, Option.elim_some, List.append_assoc (digits.take 1)]
      rfl
    · simpa using h.ne_nil
    · rw [List.length_take]
      omega
    · exact List.ne_nil_of_length_pos (by rw [List.length_drop]; omega)
    · have hlast : point - 1 - ((digits.drop 1).length : Int) = point - digits.length := by
        rw [List.length_drop]
        omega
      rw [Option.getD_some, List.take_append_drop, hlast]

end Layout

/-- Every magnitude is written as a number with a point or a power of ten, and one that stands for
it. -/
theorem exists_parts_magnitude {units : Nat} (h : Binary64.IsMagnitude units)
    (layout : DecimalLayout) :
    ∃ parts : NumberParts, layout.magnitude units = parts.text ∧ parts.IsWellFormed ∧
      ∀ negative, parts.value negative = .float (.finite negative units) := by
  suffices hparts : ∃ (parts : NumberParts) (n : Nat) (power : Int),
      layout.magnitude units = parts.text ∧ parts.Spells n power ∧
        Binary64.roundDecimal n power = units by
    obtain ⟨parts, n, power, htext, hspells, hround⟩ := hparts
    exact ⟨parts, htext, hspells.toIsWellFormed, hspells.value_eq hround h.lt_limit⟩
  rw [DecimalLayout.magnitude]
  rcases Nat.eq_zero_or_pos units with rfl | hpos
  · refine ⟨⟨['0'], some ['0'], none⟩, 0, -1, ?_, ?_, Binary64.roundDecimal_zero _⟩
    · rw [if_pos rfl, NumberParts.text_positional]
      rfl
    · exact NumberParts.spells_positional (by decide) (fun _ ↦ rfl) (by decide) rfl
  · have hdigits := Binary64.isSignificand_shortest hpos
    have hround := Binary64.roundDecimal_shortest h.onGrid hpos
    rw [if_neg hpos.ne']
    generalize Binary64.shortest units = found at hdigits hround ⊢
    obtain ⟨digits, point⟩ := found
    dsimp only at hdigits hround ⊢
    split_ifs with hplace
    · obtain ⟨parts, htext, hspells⟩ := exists_parts_positional hdigits point
      exact ⟨parts, _, _, htext, hspells, hround⟩
    · obtain ⟨parts, htext, hspells⟩ := exists_parts_scientific hdigits layout point
      exact ⟨parts, _, _, htext, hspells, hround⟩

/-! ## Numbers with a sign -/

theorem NumberParts.IsWellFormed.exists_cons {parts : NumberParts} (h : parts.IsWellFormed) :
    ∃ c cs, parts.text = c :: cs ∧ c.isDigit = true := by
  obtain ⟨c, cs, hc⟩ := List.exists_cons_of_ne_nil h.whole.1
  exact ⟨c, _, by rw [text, hc, List.cons_append], h.whole.2 c (hc ▸ List.mem_cons_self)⟩

theorem readNumber_sign (negative : Bool) {parts : NumberParts} (h : parts.IsWellFormed)
    {rest : Text} (hrest : Ends rest) :
    readNumber (DecimalLayout.sign negative ++ (parts.text ++ rest)) =
      some (parts.value negative, rest) := by
  have hsign : optional (Text.char? (· == '-'))
      (DecimalLayout.sign negative ++ (parts.text ++ rest)) =
        (if negative then some '-' else none, parts.text ++ rest) := by
    cases negative with
    | true => rfl
    | false =>
      obtain ⟨c, cs, htext, hc⟩ := h.exists_cons
      have hminus : (c == '-') = false := by
        rw [beq_eq_false_iff_ne]
        rintro rfl
        exact absurd hc (by decide)
      simp [htext, DecimalLayout.sign, optional, Text.char?, hminus]
  simp only [readNumber, hsign, NumberParts.readParts_text h hrest, Option.map_some]
  cases negative <;> rfl

theorem isWellFormed_ofNat (n : Nat) : NumberParts.IsWellFormed ⟨Numeral.ofNat n, none, none⟩ where
  whole := isDigits_ofNat n
  length_of_zero hzero := by
    rcases Nat.eq_zero_or_pos n with rfl | hpos
    · rfl
    · exact absurd hzero (Binary64.isSignificand_ofNat hpos).head?_ne
  fraction := fun _ hmem ↦ by cases hmem
  exponent := fun _ hmem ↦ by cases hmem

theorem ofInt_eq (i : Int) : Numeral.ofInt i =
    DecimalLayout.sign (i < 0) ++ NumberParts.text ⟨Numeral.ofNat i.natAbs, none, none⟩ := by
  simp only [NumberParts.text, NumberParts.fractionText, NumberParts.exponentText, Option.elim,
    List.append_nil]
  cases i with
  | ofNat n => rfl
  | negSucc n =>
    rw [decide_eq_true (Int.negSucc_lt_zero n)]
    rfl

theorem value_ofNat (i : Int) :
    NumberParts.value ⟨Numeral.ofNat i.natAbs, none, none⟩ (i < 0) = .int i := by
  have hsigned : (if i < 0 then -(i.natAbs : Int) else i.natAbs) = i := by split_ifs <;> omega
  simp only [NumberParts.value, NumberParts.digits, Option.getD_none, List.append_nil,
    Numeral.valueOf_ofNat, Option.isNone_none, Bool.and_self, if_true, decide_eq_true_eq, hsigned]

end Json

end PageCompiler
