import PageCompiler.Proofs.ConditionGrammar
import PageCompiler.Proofs.References

/-!
# Writing conditions

How a condition is written: a tree is a row of lexemes, with parentheses around a part exactly where
the grammar has no room for it otherwise, and the lexemes stand in the text with single blanks
between them. Reading what was written gives the tree back.

This goes in two steps that know nothing of each other. The row of a tree derives the tree, by
induction over the tree: every operand is derived at its own part of the grammar, and a part may
stand wherever a looser one may (`Derives.loosen`). And scanning finds the lexemes of a row again,
since a blank ends every lexeme that could go on (`lexeme?_written`).
-/

namespace PageCompiler

/-! ## Numerals -/

theorem digitValue?_digitChar {d : Nat} (h : d < 10) : digitValue? (Nat.digitChar d) = some d := by
  have hall : ∀ d : Fin 10, digitValue? (Nat.digitChar d.val) = some d.val := by decide
  exact hall ⟨d, h⟩

variable {c : Char} {n : Nat}

namespace Numeral

theorem exists_digit_of_mem (h : c ∈ ofNat n) : ∃ d < 10, c = Nat.digitChar d := by
  rw [ofNat] at h
  induction n using Nat.strong_induction_on with
  | _ n ih =>
    by_cases hn : n < 10
    · rw [Nat.toDigits_of_lt_base hn, List.mem_singleton] at h
      exact ⟨n, hn, h⟩
    · rw [Nat.toDigits_of_base_le (by decide) (by omega), List.mem_append,
        List.mem_singleton] at h
      rcases h with h | h
      · exact ih _ (Nat.div_lt_self (by omega) (by decide)) h
      · exact ⟨n % 10, Nat.mod_lt _ (by decide), h⟩

theorem isDecimalDigit_of_mem_ofNat (h : c ∈ ofNat n) : isDecimalDigit c = true := by
  obtain ⟨d, hd, rfl⟩ := exists_digit_of_mem h
  rw [isDecimalDigit, digitValue?_digitChar hd]
  rfl

theorem ofNat_ne_nil (n : Nat) : ofNat n ≠ [] := Nat.toDigits_ne_nil

theorem valueOf_concat (digits : List Nat) (d : Nat) :
    valueOf (digits ++ [d]) = 10 * valueOf digits + d := by
  rw [valueOf, List.foldl_append]
  rfl

theorem valueOf_ofNat (n : Nat) : valueOf (digitValues (ofNat n)) = n := by
  rw [ofNat]
  induction n using Nat.strong_induction_on with
  | _ n ih =>
    by_cases hn : n < 10
    · rw [Nat.toDigits_of_lt_base hn, digitValues, List.map_singleton, digitValue?_digitChar hn]
      simp [valueOf]
    · have hlast : n % 10 < 10 := Nat.mod_lt _ (by decide)
      rw [Nat.toDigits_of_base_le (by decide) (by omega), digitValues, List.map_append,
        List.map_singleton, valueOf_concat, digitValue?_digitChar hlast]
      have hfront := ih (n / 10) (Nat.div_lt_self (by omega) (by decide))
      rw [digitValues] at hfront
      rw [hfront, Option.getD_some]
      omega

end Numeral

namespace Condition

/-! ## Trees as rows of lexemes -/

/-- How loosely a part of the grammar binds. -/
def Part.looseness : Part → Nat
  | .operand => 0
  | .comparison => 1
  | .negation => 2
  | .conjunction => 3
  | .disjunction => 4

theorem Part.looseness_le (part : Part) : part.looseness ≤ Part.disjunction.looseness := by
  cases part <;> decide

/-- The part of the grammar that a tree is of when there are no parentheses around it. -/
def Tree.part : Tree → Part
  | literal _ => .operand
  | var _ => .operand
  | compare _ _ _ => .comparison
  | not _ => .negation
  | and _ _ => .conjunction
  | or _ _ => .disjunction

/-- The lexemes of something of one part in a place for another, with parentheses around them if it
binds too loosely for the place. -/
def enclosed (place own : Part) (ts : List Lexeme) : List Lexeme :=
  if own.looseness ≤ place.looseness then ts else .opening :: (ts ++ [.closing])

def Literal.lexeme : Literal → Lexeme
  | null => .name "null"
  | bool true => .name "true"
  | bool false => .name "false"
  | whole n => .whole n
  | float x => .float x
  | text t => .text t

def Tree.lexemes : Tree → List Lexeme
  | literal value => [value.lexeme]
  | var name => [.name ('$' :: name)]
  | not operand => .not :: enclosed .negation operand.part operand.lexemes
  | and left right =>
    enclosed .conjunction left.part left.lexemes ++
      .and :: enclosed .negation right.part right.lexemes
  | or left right =>
    enclosed .disjunction left.part left.lexemes ++
      .or :: enclosed .conjunction right.part right.lexemes
  | compare op left right =>
    enclosed .operand left.part left.lexemes ++
      .comparison op :: enclosed .operand right.part right.lexemes

/-! ## Lexemes as texts -/

/-- A character of a quoted text. -/
def escaped (c : Char) : Text := if c = '"' ∨ c = '\\' then ['\\', c] else [c]

def quoted (t : Text) : Text := '"' :: (t.flatMap escaped ++ ['"'])

def Lexeme.written : Lexeme → Text
  | .text t => quoted t
  | other => other.shown

def writtenRow (ts : List Lexeme) : Text := Text.join [' '] (ts.map Lexeme.written)

def Tree.written (t : Tree) : Text := writtenRow t.lexemes

/-! ## What can be written -/

/-- Whether a literal can be written so that it is read again: its numeral must not be too long, and
for numbers with a fraction nothing is said. -/
def Literal.Writable : Literal → Prop
  | whole n => (Numeral.ofNat n).length ≤ Numeral.maxDigits
  | float _ => False
  | _ => True

/-- Whether the literals of a tree can be written, and its variables are known names. -/
def Tree.Writable (known : List Text) : Tree → Prop
  | literal value => value.Writable
  | var name => Script.IsIdentifier name ∧ name ∈ known
  | not operand => operand.Writable known
  | and left right => left.Writable known ∧ right.Writable known
  | or left right => left.Writable known ∧ right.Writable known
  | compare _ left right => left.Writable known ∧ right.Writable known

/-- The same for a lexeme, whatever names are known. -/
def Lexeme.Writable : Lexeme → Prop
  | whole n => (Numeral.ofNat n).length ≤ Numeral.maxDigits
  | float _ => False
  | name spelling =>
    Script.IsIdentifier spelling ∨ ∃ bare, spelling = '$' :: bare ∧ Script.IsIdentifier bare
  | _ => True

/-! ## The row of a tree derives the tree -/

section Derivation

variable {known : List Text} {place own : Part} {ts : List Lexeme} {t : Tree}

theorem Derives.loosen (h : Derives known own ts t) (hle : own.looseness ≤ place.looseness) :
    Derives known place ts t := by
  -- Each part is one case of the next looser one.
  have hcomparison (hle : own.looseness ≤ 1) : Derives known .comparison ts t := by
    cases own with
    | operand => exact .alone h
    | comparison => exact h
    | negation | conjunction | disjunction => exact absurd hle (by decide)
  have hnegation (hle : own.looseness ≤ 2) : Derives known .negation ts t := by
    cases own with
    | operand | comparison => exact .plain (hcomparison (by decide))
    | negation => exact h
    | conjunction | disjunction => exact absurd hle (by decide)
  have hconjunction (hle : own.looseness ≤ 3) : Derives known .conjunction ts t := by
    cases own with
    | operand | comparison | negation => exact .firstNegation (hnegation (by decide))
    | conjunction => exact h
    | disjunction => exact absurd hle (by decide)
  cases place with
  | operand =>
    cases own with
    | operand => exact h
    | comparison | negation | conjunction | disjunction => exact absurd hle (by decide)
  | comparison => exact hcomparison hle
  | negation => exact hnegation hle
  | conjunction => exact hconjunction hle
  | disjunction =>
    cases own with
    | disjunction => exact h
    | operand | comparison | negation | conjunction =>
      exact .firstConjunction (hconjunction (by decide))

theorem Derives.enclosed (h : Derives known own ts t) :
    Derives known place (Condition.enclosed place own ts) t := by
  rw [Condition.enclosed]
  split_ifs with hle
  · exact h.loosen hle
  · have hinside : Derives known .disjunction ts t := h.loosen own.looseness_le
    exact hinside.parentheses.loosen (Nat.zero_le _)

theorem Literal.derives (value : Literal) :
    Derives known .operand [value.lexeme] (.literal value) := by
  cases value with
  | null => exact .null
  | bool b =>
    cases b with
    | true => exact .yes
    | false => exact .no
  | whole n => exact .whole n
  | float x => exact .float x
  | text t => exact .text t

/-- **The lexemes of a tree derive it.** -/
theorem Tree.derives (h : t.Writable known) : Derives known t.part t.lexemes t := by
  induction t with
  | literal value => exact value.derives
  | var name =>
    refine .name ?_ h.2
    -- No keyword begins with a dollar sign.
    simp [keywords]
  | not operand ih => exact .not (ih h).enclosed
  | and left right ihLeft ihRight => exact .and (ihLeft h.1).enclosed (ihRight h.2).enclosed
  | or left right ihLeft ihRight => exact .or (ihLeft h.1).enclosed (ihRight h.2).enclosed
  | compare op left right ihLeft ihRight =>
    exact .compare op (ihLeft h.1).enclosed (ihRight h.2).enclosed

end Derivation

/-! ## The row of a tree can be written -/

theorem Literal.Writable.lexeme {value : Literal} (h : value.Writable) :
    value.lexeme.Writable := by
  -- The keywords are spelled like variables.
  cases value with
  | null => exact .inl ⟨_, _, rfl, by decide, by decide⟩
  | bool b =>
    cases b with
    | true => exact .inl ⟨_, _, rfl, by decide, by decide⟩
    | false => exact .inl ⟨_, _, rfl, by decide, by decide⟩
  | whole n => exact h
  | float x => exact h
  | text t => trivial

theorem writable_enclosed {place own : Part} {ts : List Lexeme} (h : ∀ x ∈ ts, x.Writable) :
    ∀ x ∈ enclosed place own ts, x.Writable := by
  intro x hx
  rw [enclosed] at hx
  split_ifs at hx
  · exact h x hx
  · simp only [List.mem_cons, List.mem_append, List.not_mem_nil, or_false] at hx
    rcases hx with rfl | hx | rfl
    · trivial
    · exact h x hx
    · trivial

theorem writable_append_cons {ls rs : List Lexeme} {sign : Lexeme} (hsign : sign.Writable)
    (hls : ∀ x ∈ ls, x.Writable) (hrs : ∀ x ∈ rs, x.Writable) :
    ∀ x ∈ ls ++ sign :: rs, x.Writable :=
  List.forall_mem_append.mpr ⟨hls, List.forall_mem_cons.mpr ⟨hsign, hrs⟩⟩

theorem Tree.Writable.lexemes {known : List Text} {t : Tree} (h : t.Writable known) :
    ∀ x ∈ t.lexemes, x.Writable := by
  induction t with
  | literal value => exact List.forall_mem_singleton.mpr (Literal.Writable.lexeme h)
  | var name => exact List.forall_mem_singleton.mpr (.inr ⟨name, rfl, h.1⟩)
  | not operand ih => exact List.forall_mem_cons.mpr ⟨trivial, writable_enclosed (ih h)⟩
  | and left right ihLeft ihRight =>
    exact writable_append_cons trivial (writable_enclosed (ihLeft h.1))
      (writable_enclosed (ihRight h.2))
  | or left right ihLeft ihRight =>
    exact writable_append_cons trivial (writable_enclosed (ihLeft h.1))
      (writable_enclosed (ihRight h.2))
  | compare op left right ihLeft ihRight =>
    exact writable_append_cons trivial (writable_enclosed (ihLeft h.1))
      (writable_enclosed (ihRight h.2))

/-! ## A written lexeme is found -/

/-- Whether a text ends or goes on with a blank, as it does behind every written lexeme. -/
def Ends (rest : Text) : Prop := ∀ c ∈ rest.head?, c = ' '

theorem ends_nil : Ends [] := by
  intro c hc
  cases hc

theorem ends_blank (t : Text) : Ends (' ' :: t) := fun _ hc ↦ (Option.some.inj hc).symm

theorem Ends.cases {rest : Text} (h : Ends rest) : rest = [] ∨ ∃ more, rest = ' ' :: more := by
  cases rest with
  | nil => exact .inl rfl
  | cons c more =>
    obtain rfl := h c rfl
    exact .inr ⟨more, rfl⟩

theorem Ends.stops {rest : Text} (h : Ends rest) {p : Char → Bool} (hp : p ' ' = false) :
    ∀ c, rest.head? = some c → p c = false := by
  intro c hc
  rw [h c hc]
  exact hp

theorem number_written (hn : (Numeral.ofNat n).length ≤ Numeral.maxDigits) {rest : Text}
    (hrest : Ends rest) : number (Numeral.ofNat n ++ rest) = .ok (.whole n, rest) := by
  have hdigits : ∀ c ∈ Numeral.ofNat n, isDecimalDigit c = true :=
    fun c ↦ Numeral.isDecimalDigit_of_mem_ofNat
  have hstops := hrest.stops (p := isDecimalDigit) (by decide)
  rw [number, Text.takeWhile_append_of_stop hdigits hstops,
    Text.dropWhile_append_of_stop hdigits hstops, Numeral.valueOf_ofNat]
  have hshort := Nat.not_lt.mpr hn
  -- No point follows, so there is no fraction.
  rcases hrest.cases with rfl | ⟨more, rfl⟩
  · exact if_neg hshort
  · exact if_neg hshort

theorem quotedRest_plain {quote : Char} (hquote : c ≠ quote) (hescape : c ≠ '\\') {t : Text}
    (ht : t ≠ []) :
    quotedRest quote (c :: t) = (quotedRest quote t).map fun (inside, after) ↦
      (c :: inside, after) := by
  obtain ⟨d, ds, rfl⟩ := List.exists_cons_of_ne_nil ht
  rw [quotedRest, if_neg hquote, if_neg hescape]

theorem quotedRest_escape {d : Char} (hfeed : d ≠ '\n') (t : Text) :
    quotedRest '"' ('\\' :: d :: t) = (quotedRest '"' t).map fun (inside, after) ↦
      (unescape d :: inside, after) := by
  rw [quotedRest, if_neg (by decide), if_pos rfl, if_neg hfeed]

theorem quotedRest_close (rest : Text) : quotedRest '"' ('"' :: rest) = some ([], rest) := by
  cases rest with
  | nil => rfl
  | cons d ds => rfl

theorem quotedRest_written (t rest : Text) :
    quotedRest '"' (t.flatMap escaped ++ '"' :: rest) = some (t, rest) := by
  induction t with
  | nil => exact quotedRest_close rest
  | cons c cs ih =>
    rw [List.flatMap_cons, List.append_assoc, escaped]
    split_ifs with hc
    · have hread : unescape c = c ∧ c ≠ '\n' := by
        rcases hc with rfl | rfl <;> decide
      rw [List.cons_append, List.cons_append, List.nil_append, quotedRest_escape hread.2, ih,
        hread.1]
      rfl
    · obtain ⟨hquote, hescape⟩ := not_or.mp hc
      rw [List.cons_append, List.nil_append, quotedRest_plain hquote hescape (by simp), ih]
      rfl

theorem beginsName_iff : beginsName c = true ↔ isLatinLetter c = true ∨ c = '_' := by
  rw [beginsName, Bool.or_eq_true, beq_iff_eq]

theorem isDecimalDigit_of_beginsName (h : beginsName c = true) : isDecimalDigit c = false := by
  have hcodes : ∀ n : Fin 123, 65 ≤ n.val →
      (digitZeros.find? fun first ↦ first ≤ n.val && n.val < first + 10) = none := by
    decide +kernel
  have hcode : 65 ≤ c.toNat ∧ c.toNat ≤ 122 := by
    rcases beginsName_iff.mp h with hletter | rfl
    · have := Script.toNat_of_isLatinLetter hletter
      omega
    · decide
  rw [isDecimalDigit, digitValue?, hcodes ⟨c.toNat, by omega⟩ hcode.1]
  rfl

theorem name?_written {spelling : Text}
    (h : Script.IsIdentifier spelling ∨
      ∃ bare, spelling = '$' :: bare ∧ Script.IsIdentifier bare) {rest : Text}
    (hrest : Ends rest) : name? (spelling ++ rest) = some (.name spelling, rest) := by
  have hstops := hrest.stops (p := isWord) (by decide)
  rcases h with ⟨c, cs, rfl, hfirst, hword⟩ | ⟨_, rfl, c, cs, rfl, hfirst, hword⟩
  · have hbegins := beginsName_iff.mpr hfirst
    have hdollar := ne_dollar_of_beginsName hbegins
    rw [List.cons_append, name?, if_pos hbegins, Text.takeWhile_append_of_stop hword hstops,
      Text.dropWhile_append_of_stop hword hstops]
    intro d ds heq
    exact absurd heq hdollar
  · rw [List.cons_append, List.cons_append, name?, if_pos (beginsName_iff.mpr hfirst),
      Text.takeWhile_append_of_stop hword hstops, Text.dropWhile_append_of_stop hword hstops]

/-- Whether scanning finds a lexeme in a text that begins with how it is written. -/
structure FoundAs (x : Lexeme) (first : Char) (more : Text) : Prop where
  not_blank : isBlank first = false
  found : ∀ rest, Ends rest → lexeme? (first :: (more ++ rest)) = .ok (some (x, rest))

theorem foundAs_whole (hn : (Numeral.ofNat n).length ≤ Numeral.maxDigits) {first : Char}
    {more : Text} (hwritten : Numeral.ofNat n = first :: more) :
    FoundAs (.whole n) first more where
  not_blank := by
    obtain ⟨d, hd, hfirst⟩ := Numeral.exists_digit_of_mem (hwritten ▸ List.mem_cons_self)
    have hall : ∀ d : Fin 10, isBlank (Nat.digitChar d.val) = false := by decide
    rw [hfirst]
    exact hall ⟨d, hd⟩
  found rest hrest := by
    have hdigit : isDecimalDigit first = true :=
      Numeral.isDecimalDigit_of_mem_ofNat (hwritten ▸ List.mem_cons_self)
    rw [lexeme?, if_pos hdigit, ← List.cons_append, ← hwritten, number_written hn hrest]
    rfl

theorem foundAs_text (t : Text) : FoundAs (.text t) '"' (t.flatMap escaped ++ ['"']) where
  not_blank := by decide
  found rest _ := by
    rw [lexeme?, if_neg (by decide), if_pos (.inl rfl), List.append_assoc, List.singleton_append,
      quotedRest_written]
    rfl

theorem foundAs_name {first : Char} {more : Text}
    (h : Script.IsIdentifier (first :: more) ∨
      ∃ bare, first :: more = '$' :: bare ∧ Script.IsIdentifier bare) :
    FoundAs (.name (first :: more)) first more := by
  -- A name begins with a dollar sign, or with a letter or an underscore.
  have hfirst : first = '$' ∨ beginsName first = true := by
    rcases h with ⟨c, cs, heq, hbegins, -⟩ | ⟨bare, heq, -⟩
    · rw [(List.cons.inj heq).1]
      exact .inr (beginsName_iff.mpr hbegins)
    · exact .inl (List.cons.inj heq).1
  have hdigit : isDecimalDigit first = false := by
    rcases hfirst with rfl | hbegins
    · decide
    · exact isDecimalDigit_of_beginsName hbegins
  have hother : isBlank first = false ∧ ¬ (first = '"' ∨ first = '\'') := by
    rcases hfirst with rfl | hbegins
    · decide
    · refine ⟨isBlank_of_isWord ?_, ?_⟩
      · rcases beginsName_iff.mp hbegins with hletter | rfl
        · exact Script.isWord_of_isLatinLetter hletter
        · decide
      · rintro (rfl | rfl)
        · revert hbegins
          decide
        · revert hbegins
          decide
  refine ⟨hother.1, fun rest hrest ↦ ?_⟩
  have hname := name?_written h hrest
  rw [List.cons_append] at hname
  rw [lexeme?, if_neg (by rw [hdigit]; exact Bool.false_ne_true), if_neg hother.2, hname]

/-- A sign is found, since no longer one begins with it and a blank. -/
theorem exists_foundAs_sign {symbol : Text} {sign : Lexeme} (h : (symbol, sign) ∈ operators) :
    ∃ first more, symbol = first :: more ∧ FoundAs sign first more := by
  simp only [operators, List.mem_cons, List.not_mem_nil, or_false, Prod.mk.injEq] at h
  rcases h with ⟨rfl, rfl⟩ | ⟨rfl, rfl⟩ | ⟨rfl, rfl⟩ | ⟨rfl, rfl⟩ | ⟨rfl, rfl⟩ | ⟨rfl, rfl⟩ |
    ⟨rfl, rfl⟩ | ⟨rfl, rfl⟩ | ⟨rfl, rfl⟩ | ⟨rfl, rfl⟩ | ⟨rfl, rfl⟩ | ⟨rfl, rfl⟩ | ⟨rfl, rfl⟩
  all_goals
    refine ⟨_, _, rfl, by decide, fun rest hrest ↦ ?_⟩
    rcases hrest.cases with rfl | ⟨more, rfl⟩ <;> rfl

theorem exists_foundAs {x : Lexeme} (h : x.Writable) :
    ∃ first more, x.written = first :: more ∧ FoundAs x first more := by
  cases x with
  | whole n =>
    obtain ⟨first, more, hwritten⟩ := List.exists_cons_of_ne_nil (Numeral.ofNat_ne_nil n)
    exact ⟨first, more, hwritten, foundAs_whole h hwritten⟩
  | float x => exact h.elim
  | text t => exact ⟨_, _, rfl, foundAs_text t⟩
  | name spelling =>
    have hne : spelling ≠ [] := by
      rcases h with h | ⟨bare, rfl, -⟩
      · exact h.ne_nil
      · exact List.cons_ne_nil _ _
    obtain ⟨first, more, rfl⟩ := List.exists_cons_of_ne_nil hne
    exact ⟨first, more, rfl, foundAs_name h⟩
  | comparison op =>
    apply exists_foundAs_sign
    cases op <;> decide
  | and | or | not | opening | closing => exact exists_foundAs_sign (by decide)

/-! ## A written row is scanned -/

theorem scanFrom_blank (offset : Nat) (t : Text) :
    scanFrom offset (' ' :: t) = scanFrom (offset + 1) t := by
  rw [scanFrom]
  exact if_pos (by decide)

theorem scanFrom_lexeme {x : Lexeme} {first : Char} {more rest : Text} (h : FoundAs x first more)
    (hrest : Ends rest) {offset : Nat} {tokens : List Token}
    (htokens : scanFrom (offset + (more.length + 1)) rest = .ok tokens) :
    scanFrom offset (first :: (more ++ rest)) = .ok (⟨x, offset⟩ :: tokens) := by
  have hlength : (first :: (more ++ rest)).length - rest.length = more.length + 1 := by
    rw [List.length_cons, List.length_append]
    omega
  rw [scanFrom, if_neg (by rw [h.not_blank]; exact Bool.false_ne_true), h.found rest hrest]
  simp only [hlength, htokens, List.length_append, Nat.le_add_left, if_true]

/-- **A row of lexemes is found again in how it is written.** -/
theorem exists_scanFrom_writtenRow {ts : List Lexeme} (h : ∀ x ∈ ts, x.Writable) (offset : Nat) :
    ∃ tokens, scanFrom offset (writtenRow ts) = .ok tokens ∧ tokens.map Token.lexeme = ts := by
  induction ts generalizing offset with
  | nil => exact ⟨[], by rw [writtenRow, List.map_nil, Text.join, scanFrom], rfl⟩
  | cons x rest ih =>
    obtain ⟨hx, hrest⟩ := List.forall_mem_cons.mp h
    obtain ⟨first, more, hwritten, hfound⟩ := exists_foundAs hx
    cases rest with
    | nil =>
      have hnil : scanFrom (offset + (more.length + 1)) [] = .ok [] := by rw [scanFrom]
      refine ⟨[⟨x, offset⟩], ?_, rfl⟩
      rw [← scanFrom_lexeme hfound ends_nil hnil, List.append_nil, ← hwritten]
      rfl
    | cons y others =>
      obtain ⟨tokens, htokens, hlexemes⟩ := ih hrest (offset + (more.length + 1) + 1)
      rw [← scanFrom_blank] at htokens
      refine ⟨⟨x, offset⟩ :: tokens, ?_, congrArg (x :: ·) hlexemes⟩
      rw [← scanFrom_lexeme hfound (ends_blank _) htokens,
        ← List.cons_append, ← hwritten]
      rfl

/-- **Reading a written condition gives it back.** Every condition whose variables are known names
and whose literals can be written is what parsing finds in how it is written. -/
theorem parse_written {known : List Text} {t : Tree} (h : t.Writable known) :
    parse t.written known = .ok t := by
  obtain ⟨tokens, hscan, hlexemes⟩ := exists_scanFrom_writtenRow h.lexemes 0
  have hspelled := spelled_of_scanFrom hscan
  have hderives : Derives known .disjunction (tokens.map Token.lexeme) t := by
    rw [hlexemes]
    exact (Tree.derives h).loosen t.part.looseness_le
  have hread : ofTokens ⟨known, t.written.length⟩ tokens = .ok t :=
    (ofTokens_eq_ok_iff hspelled).mpr hderives
  rw [parse, scan, Tree.written, hscan]
  exact hread

/-- Every sign and every level, a name that is a keyword elsewhere, and a text with a quote and a
backslash in it. -/
theorem nested_condition_read_back :
    let t : Tree := .and
      (.or (.not (.not (.var "true"))) (.compare .atMost (.var "n") (.not (.literal (.whole 10)))))
      (.compare .different (.literal (.text "\"\\")) (.literal .null))
    t.Writable ["n", "true"] ∧
      t.written = "( ! ! $true || $n <= ( ! 10 ) ) && \"\\\"\\\\\" !== null" ∧
      parse t.written ["n", "true"] = .ok t := by
  intro t
  have hn : Script.IsIdentifier "n" := ⟨_, _, rfl, by decide, by decide⟩
  have htrue : Script.IsIdentifier "true" := ⟨_, _, rfl, by decide, by decide⟩
  have hten : (Numeral.ofNat 10).length ≤ Numeral.maxDigits := by decide
  have h : t.Writable ["n", "true"] :=
    ⟨⟨⟨htrue, by decide⟩, ⟨hn, by decide⟩, hten⟩, trivial, trivial⟩
  exact ⟨h, by decide, parse_written h⟩

end Condition

end PageCompiler
