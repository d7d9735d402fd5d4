import PageCompiler.Proofs.ConditionGrammar

/-!
# Where a condition stops being completable

A malformed condition is reported at an offset. The tokens before that offset can be completed to a
row that the grammar accepts, and together with the token at the offset they cannot, whatever
follows: the report points at the first dead end.

## One token of lookahead

Every part of the reader decides by the next token alone. `LooksAhead` says so for one part: what it
has read it reads again before any other row with the same next token, and where it is stuck it
stays stuck. Like soundness it is carried from each part to the part above. A row that is tried in
place of the rest may be longer and may hold more parentheses, so a reader is compared with those
that have room for any number of further levels; its own room matters only where it fails, since a
reader without room fails before it has looked at anything.

That the tokens before the offset can be completed is shown beside this, part by part: a missing
operand is completed by a keyword, and a parenthesis that is open is closed.
-/

namespace PageCompiler

namespace Condition

/-! ## The next token -/

/-- Whether two rows begin with the same lexeme, or are both at their end. -/
def SameNext (rest other : List Token) : Prop :=
  rest.head?.map Token.lexeme = other.head?.map Token.lexeme

namespace SameNext

variable {rest other : List Token} {token : Token}

theorem cons (token : Token) (rest other : List Token) :
    SameNext (token :: rest) (token :: other) := rfl

theorem append (h : SameNext rest other) (used : List Token) :
    SameNext (used ++ rest) (used ++ other) := by
  cases used with
  | nil => exact h
  | cons token more => exact cons token _ _

theorem eq_nil (h : SameNext [] other) : other = [] := by
  simpa [SameNext] using h.symm

theorem exists_cons (h : SameNext (token :: rest) other) :
    ∃ offset more, other = ⟨token.lexeme, offset⟩ :: more := by
  obtain ⟨⟨lexeme, offset⟩, hhead, rfl⟩ := Option.map_eq_some_iff.mp h.symm
  obtain ⟨more, rfl⟩ := List.head?_eq_some_iff.mp hhead
  exact ⟨offset, more, rfl⟩

theorem notNext (h : SameNext rest other) {sign : Lexeme} (hrest : NotNext sign rest) :
    NotNext sign other := by
  cases rest with
  | nil =>
    obtain rfl := h.eq_nil
    exact notNext_nil
  | cons token more =>
    obtain ⟨offset, later, rfl⟩ := h.exists_cons
    exact notNext_cons (hrest token rfl)

theorem noComparison (h : SameNext rest other) (hrest : NoComparison rest) :
    NoComparison other := fun op ↦ h.notNext (hrest op)

end SameNext

theorem notNext_of_forall_ne {sign : Lexeme} {rest : List Token}
    (h : ∀ offset more, rest ≠ ⟨sign, offset⟩ :: more) : NotNext sign rest := by
  rintro ⟨lexeme, offset⟩ hnext rfl
  obtain ⟨more, rfl⟩ := List.head?_eq_some_iff.mp hnext
  exact h offset more rfl

/-! ## What each part of the reader can do -/

/-- The operand goes by the next token: a value is taken, a name that is not known is reported, a
parenthesis leads further in, and anything else is a fault at that token. -/
theorem operand_cases (scope : Scope) (tokens : List Token) :
    (∃ token after t, tokens = token :: after ∧
      ∀ inner rest, operand scope inner (token :: rest) = .ok (t, rest)) ∨
    (∃ name, ∀ inner, operand scope inner tokens = .error (.unknown name)) ∨
    (∃ offset after, tokens = ⟨.opening, offset⟩ :: after) ∨
    ∀ inner, (∃ fault, operand scope inner tokens =
        .error (.malformed fault (nextOffset scope tokens))) ∧
      ∀ other, SameNext tokens other → ∃ e, operand scope inner other = .error e := by
  rcases tokens with _ | ⟨⟨lexeme, offset⟩, after⟩
  · refine .inr (.inr (.inr fun inner ↦ ⟨⟨_, rfl⟩, fun other hsame ↦ ?_⟩))
    obtain rfl := hsame.eq_nil
    exact ⟨_, rfl⟩
  · cases lexeme with
    | whole | float | text => exact .inl ⟨_, after, _, rfl, fun inner rest ↦ rfl⟩
    | name spelling =>
      cases htree : nameTree scope spelling with
      | ok t =>
        refine .inl ⟨_, after, t, rfl, fun inner rest ↦ ?_⟩
        simp only [operand, htree, Except.map]
      | error e =>
        obtain ⟨rfl, -⟩ := nameTree_eq_error htree
        refine .inr (.inl ⟨spelling.dropWhile (· == '$'), fun inner ↦ ?_⟩)
        simp only [operand, htree, Except.map]
    | opening => exact .inr (.inr (.inl ⟨offset, after, rfl⟩))
    | closing | comparison | and | or | not =>
      refine .inr (.inr (.inr fun inner ↦ ⟨⟨_, rfl⟩, fun other hsame ↦ ?_⟩))
      obtain ⟨place, more, rfl⟩ := hsame.exists_cons
      exact ⟨_, rfl⟩

section Parentheses

variable {scope : Scope} {inner : TreeReader} {offset : Nat} {after rest : List Token} {t : Tree}

theorem operand_of_closing {closing : Nat}
    (h : inner after = .ok (t, ⟨.closing, closing⟩ :: rest)) :
    operand scope inner (⟨.opening, offset⟩ :: after) = .ok (t, rest) := by
  simp only [operand, h]

theorem operand_of_notNext_closing (h : inner after = .ok (t, rest))
    (hclosing : NotNext .closing rest) : operand scope inner (⟨.opening, offset⟩ :: after) =
      .error (.malformed .closingExpected (nextOffset scope rest)) := by
  simp only [operand, h]
  split
  · rename_i heq
    cases heq
  · rename_i heq
    cases heq
    exact absurd rfl (hclosing _ rfl)
  · rename_i heq
    cases heq
    rfl

theorem operand_of_error {e : Error} (h : inner after = .error e) :
    operand scope inner (⟨.opening, offset⟩ :: after) = .error e := by
  simp only [operand, h]

theorem operand_opening_eq_ok
    (h : operand scope inner (⟨.opening, offset⟩ :: after) = .ok (t, rest)) :
    ∃ closing, inner after = .ok (t, ⟨.closing, closing⟩ :: rest) := by
  simp only [operand] at h
  split at h
  · cases h
  · rename_i tree closing more hinner
    obtain ⟨rfl, rfl⟩ : tree = t ∧ more = rest := by simpa using h
    exact ⟨closing, hinner⟩
  · cases h

theorem operand_opening_eq_error {e : Error}
    (h : operand scope inner (⟨.opening, offset⟩ :: after) = .error e) :
    inner after = .error e ∨ ∃ t rest, inner after = .ok (t, rest) ∧ NotNext .closing rest ∧
      e = .malformed .closingExpected (nextOffset scope rest) := by
  simp only [operand] at h
  split at h
  · rename_i hinner
    exact .inl (hinner.trans h)
  · cases h
  · rename_i tree left hclosing hinner
    exact .inr ⟨tree, left, hinner, notNext_of_forall_ne hclosing, (Except.error.inj h).symm⟩

end Parentheses

section Comparison

variable {item : TreeReader} {tokens rest : List Token} {t : Tree}

theorem comparison_eq_ok (h : comparison item tokens = .ok (t, rest)) :
    (item tokens = .ok (t, rest) ∧ NoComparison rest) ∨
    ∃ op offset left after right, item tokens = .ok (left, ⟨.comparison op, offset⟩ :: after) ∧
      item after = .ok (right, rest) ∧ t = .compare op left right := by
  unfold comparison at h
  split at h
  · cases h
  · rename_i left op offset after hleft
    obtain ⟨⟨right, more⟩, hright, hpair⟩ := exists_of_map_eq_ok h
    obtain ⟨rfl, rfl⟩ : _ = t ∧ more = rest := by simpa using hpair
    exact .inr ⟨op, offset, left, after, right, hleft, hright, rfl⟩
  · rename_i left after hsign hleft
    obtain ⟨rfl, rfl⟩ : left = t ∧ after = rest := by simpa using h
    exact .inl ⟨hleft, fun op ↦ notNext_of_forall_ne (hsign op)⟩

theorem comparison_eq_error {e : Error} (h : comparison item tokens = .error e) :
    item tokens = .error e ∨
    ∃ op offset left after, item tokens = .ok (left, ⟨.comparison op, offset⟩ :: after) ∧
      item after = .error e := by
  unfold comparison at h
  split at h
  · rename_i hleft
    exact .inl (hleft.trans h)
  · rename_i left op offset after hleft
    exact .inr ⟨op, offset, left, after, hleft, eq_error_of_map_eq_error h⟩
  · cases h

theorem negation_of_notNext (h : NotNext .not tokens) : negation item tokens = item tokens := by
  cases tokens with
  | nil => rfl
  | cons token more => exact negation_of_ne (h token rfl)

end Comparison

/-! ## Looking one token ahead -/

/-- Readers that are stuck after `front`, with `back` to come: `front` can be completed, but no
reader gets on when the next token is that of `back`. -/
structure Stuck (known : List Text) (part : Part) (further : Nat → TreeReader)
    (front back : List Token) : Prop where
  /-- Something completes the tokens before. -/
  completable : Spelled front → ∃ more t, Derives known part (front.map Token.lexeme ++ more) t
  /-- Nothing gets on with the next token. -/
  fails : ∀ k {other}, SameNext back other → ∃ e, further k (front ++ other) = .error e

/-- Readers of a looser part are stuck where those of the part they begin with are. -/
theorem Stuck.loosen {known : List Text} {lower upper : Part} {further looser : Nat → TreeReader}
    {front back : List Token} (h : Stuck known lower further front back)
    (hderives : ∀ {ts t}, Derives known lower ts t → Derives known upper ts t)
    (hfails : ∀ k {other e}, SameNext back other → further k (front ++ other) = .error e →
      looser k (front ++ other) = .error e) : Stuck known upper looser front back where
  completable hspelled := by
    obtain ⟨more, t, hmore⟩ := h.completable hspelled
    exact ⟨more, t, hderives hmore⟩
  fails k other hsame := by
    obtain ⟨e, he⟩ := h.fails k hsame
    exact ⟨e, hfails k hsame he⟩

/-- A reader of rows of at most `room` tokens that decides by the next token, compared with readers
that have room for `k` more levels of parentheses. -/
structure LooksAhead (scope : Scope) (part : Part) (room : Nat) (item : TreeReader)
    (further : Nat → TreeReader) : Prop where
  /-- What is read is read again before the same next token. -/
  ok : ∀ {used rest t}, item (used ++ rest) = .ok (t, rest) → ∀ k {other}, SameNext rest other →
    further k (used ++ other) = .ok (t, other)
  /-- A fault is reported where the reader is stuck. -/
  error : ∀ {tokens fault place}, tokens.length ≤ room →
    item tokens = .error (.malformed fault place) → ∃ front back, tokens = front ++ back ∧
      place = nextOffset scope back ∧ Stuck scope.known part further front back

namespace LooksAhead

variable {scope : Scope} {room : Nat} {item : TreeReader} {further : Nat → TreeReader}

theorem operand (inner : LooksAhead scope .disjunction room item further)
    (sound : Sound scope.known .disjunction item) :
    LooksAhead scope .operand (room + 1) (Condition.operand scope item)
      (fun k ↦ Condition.operand scope (further k)) where
  ok {used rest t} h k other hsame := by
    rcases operand_cases scope (used ++ rest) with ⟨token, after, value, htokens, hvalue⟩ |
      ⟨name, hunknown⟩ | ⟨offset, after, htokens⟩ | hfault
    · rw [htokens, hvalue] at h
      obtain ⟨rfl, rfl⟩ : value = t ∧ after = rest := by simpa using h
      obtain rfl : used = [token] := List.append_cancel_right htokens
      exact hvalue (further k) other
    · rw [hunknown] at h
      cases h
    · rw [htokens] at h
      obtain ⟨closing, hinner⟩ := operand_opening_eq_ok h
      obtain ⟨inside, rfl, -⟩ := sound.ok hinner
      obtain rfl : used = ⟨.opening, offset⟩ :: (inside ++ [⟨.closing, closing⟩]) :=
        List.append_cancel_right (by simpa using htokens)
      have hfurther := inner.ok hinner k (SameNext.cons ⟨.closing, closing⟩ rest other)
      simpa using operand_of_closing hfurther
    · obtain ⟨fault, hfault⟩ := (hfault item).1
      rw [hfault] at h
      cases h
  error {tokens fault place} hroom h := by
    rcases operand_cases scope tokens with ⟨token, after, value, rfl, hvalue⟩ |
      ⟨name, hunknown⟩ | ⟨offset, after, rfl⟩ | hfault
    · rw [hvalue] at h
      cases h
    · rw [hunknown] at h
      cases h
    · rw [List.length_cons] at hroom
      rcases operand_opening_eq_error h with hinner | ⟨t, rest, hinner, hclosing, hplace⟩
      · obtain ⟨front, back, rfl, hplace, hstuck⟩ := inner.error (by omega) hinner
        refine ⟨⟨.opening, offset⟩ :: front, back, rfl, hplace, ?_, ?_⟩
        · intro hspelled
          obtain ⟨more, t, hderives⟩ := hstuck.completable (spelled_cons hspelled)
          exact ⟨more ++ [.closing], t, by simpa using Derives.parentheses hderives⟩
        · intro k other hsame
          obtain ⟨e, he⟩ := hstuck.fails k hsame
          exact ⟨e, operand_of_error he⟩
      · -- Only the closing parenthesis is missing.
        obtain ⟨inside, rfl, hderives⟩ := sound.ok hinner
        obtain ⟨-, rfl⟩ := Error.malformed.inj hplace
        refine ⟨⟨.opening, offset⟩ :: inside, rest, rfl, rfl, ?_, ?_⟩
        · intro hspelled
          exact ⟨[.closing], t, .parentheses (hderives (spelled_cons hspelled))⟩
        · intro k other hsame
          have hfurther := inner.ok hinner k hsame
          exact ⟨_, operand_of_notNext_closing hfurther (hsame.notNext hclosing)⟩
    · obtain ⟨other, hother⟩ := (hfault item).1
      rw [hother] at h
      obtain ⟨-, rfl⟩ := Error.malformed.inj (Except.error.inj h)
      refine ⟨[], tokens, rfl, rfl, ?_, ?_⟩
      · intro _
        exact ⟨[.name "true"], _, .yes⟩
      · intro k next hsame
        exact (hfault (further k)).2 next hsame

theorem comparison (operand : LooksAhead scope .operand room item further)
    (sound : Sound scope.known .operand item) :
    LooksAhead scope .comparison room (Condition.comparison item)
      (fun k ↦ Condition.comparison (further k)) where
  ok {used rest t} h k other hsame := by
    rcases comparison_eq_ok h with ⟨hleft, hrest⟩ |
      ⟨op, offset, left, after, right, hleft, hright, rfl⟩
    · exact comparison_of_noComparison (operand.ok hleft k hsame) (hsame.noComparison hrest)
    · obtain ⟨ls, hused, -⟩ := sound.ok hleft
      obtain ⟨rs, rfl, -⟩ := sound.ok hright
      obtain rfl : used = ls ++ ⟨.comparison op, offset⟩ :: rs :=
        List.append_cancel_right (by simpa using hused)
      rw [hused] at hleft
      rw [List.append_assoc, List.cons_append]
      have hfurther := operand.ok hleft k (SameNext.cons _ _ (rs ++ other))
      exact comparison_of_sign hfurther (operand.ok hright k hsame)
  error {tokens fault place} hroom h := by
    rcases comparison_eq_error h with hleft | ⟨op, offset, left, after, hleft, hright⟩
    · obtain ⟨front, back, rfl, hplace, hstuck⟩ := operand.error hroom hleft
      refine ⟨front, back, rfl, hplace, hstuck.loosen .alone fun k other e _ he ↦ ?_⟩
      simp only [Condition.comparison, he]
    · obtain ⟨ls, rfl, hls⟩ := sound.ok hleft
      rw [List.length_append, List.length_cons] at hroom
      obtain ⟨front, back, rfl, hplace, hstuck⟩ := operand.error (by omega) hright
      refine ⟨ls ++ ⟨.comparison op, offset⟩ :: front, back, by simp, hplace, ?_, ?_⟩
      · intro hspelled
        obtain ⟨hspelledLeft, hspelledRight⟩ := spelled_append.mp hspelled
        obtain ⟨more, t, hderives⟩ := hstuck.completable (spelled_cons hspelledRight)
        exact ⟨more, _, by simpa using Derives.compare op (hls hspelledLeft) hderives⟩
      · intro k other hsame
        obtain ⟨e, he⟩ := hstuck.fails k hsame
        have hfurther := operand.ok hleft k (SameNext.cons _ _ (front ++ other))
        refine ⟨e, ?_⟩
        rw [List.append_assoc, List.cons_append]
        simp only [Condition.comparison, hfurther, he, Except.map]

theorem negation (comparison : LooksAhead scope .comparison room item further)
    (sound : Sound scope.known .comparison item) :
    LooksAhead scope .negation room (Condition.negation item)
      (fun k ↦ Condition.negation (further k)) where
  ok {used rest t} h k other hsame := by
    generalize htokens : used ++ rest = tokens at h
    fun_induction Condition.negation item tokens generalizing used t with
    | case1 offset after ih =>
      obtain ⟨⟨tree, more⟩, htree, hpair⟩ := exists_of_map_eq_ok h
      obtain ⟨rfl, rfl⟩ : _ = t ∧ more = rest := by simpa using hpair
      obtain ⟨under, rfl, -⟩ := sound.negation.ok htree
      obtain rfl : used = ⟨.not, offset⟩ :: under := List.append_cancel_right htokens
      exact negation_of_sign offset (ih rfl htree)
    | case2 tokens hnot =>
      subst htokens
      have hfirst := (hsame.append used).notNext (notNext_of_forall_ne hnot)
      exact (negation_of_notNext hfirst).trans (comparison.ok h k hsame)
  error {tokens fault place} hroom h := by
    fun_induction Condition.negation item tokens with
    | case1 offset after ih =>
      rw [List.length_cons] at hroom
      obtain ⟨front, back, rfl, hplace, hstuck⟩ := ih (by omega) (eq_error_of_map_eq_error h)
      refine ⟨⟨.not, offset⟩ :: front, back, rfl, hplace, ?_, ?_⟩
      · intro hspelled
        obtain ⟨more, t, hderives⟩ := hstuck.completable (spelled_cons hspelled)
        exact ⟨more, _, .not hderives⟩
      · intro k other hsame
        obtain ⟨e, he⟩ := hstuck.fails k hsame
        exact ⟨e, by simp only [List.cons_append, Condition.negation, he, Except.map]⟩
    | case2 tokens hnot =>
      obtain ⟨front, back, rfl, hplace, hstuck⟩ := comparison.error hroom h
      refine ⟨front, back, rfl, hplace, hstuck.loosen .plain fun k other e hsame he ↦ ?_⟩
      have hfirst := (hsame.append front).notNext (notNext_of_forall_ne hnot)
      exact (negation_of_notNext hfirst).trans he

section Chain

variable {lower upper : Part} {sign : Lexeme} {join : Tree → Tree → Tree}

theorem chainRest_ok (items : LooksAhead scope lower room item further)
    (sound : Sound scope.known lower item)
    (more : ∀ {ls rs l r}, Derives scope.known upper ls l → Derives scope.known lower rs r →
      Derives scope.known upper (ls ++ sign :: rs) (join l r))
    (k : Nat) {fuel bound : Nat} {left t : Tree} {used rest other : List Token}
    (hfuel : (used ++ rest).length ≤ fuel) (hbound : (used ++ other).length ≤ bound)
    (h : chainRest sign join item fuel left (used ++ rest) = .ok (t, rest))
    (hsame : SameNext rest other) :
    chainRest sign join (further k) bound left (used ++ other) = .ok (t, other) := by
  generalize htokens : used ++ rest = tokens at h hfuel
  fun_induction chainRest sign join item fuel left tokens generalizing used bound with
  | case1 left tokens =>
    obtain rfl : tokens = [] := List.length_eq_zero_iff.mp (Nat.le_zero.mp hfuel)
    obtain ⟨rfl, rfl⟩ := List.append_eq_nil_iff.mp htokens
    obtain rfl := hsame.eq_nil
    obtain rfl : left = t := by simpa using h
    exact chainRest_of_notNext notNext_nil
  | case2 fuel left =>
    obtain ⟨rfl, rfl⟩ := List.append_eq_nil_iff.mp htokens
    obtain rfl := hsame.eq_nil
    obtain rfl : left = t := by simpa using h
    exact chainRest_of_notNext notNext_nil
  | case3 fuel left token after hsign e hitem => cases h
  | case4 fuel left token after hsign right remaining hitem ih =>
    obtain ⟨rs, rfl, -⟩ := sound.ok hitem
    obtain ⟨later, rfl, -⟩ := sound.chainRest_ok more h
    obtain rfl : used = token :: (rs ++ later) :=
      List.append_cancel_right (by simpa using htokens)
    simp only [List.length_cons, List.length_append, List.cons_append] at hfuel hbound
    obtain ⟨bound, rfl⟩ : ∃ n, bound = n + 1 := Nat.exists_eq_add_one.mpr (by omega)
    rw [List.cons_append, List.append_assoc, chainRest, if_pos hsign,
      items.ok hitem k (hsame.append later)]
    exact ih (by simp only [List.length_append]; omega) rfl h
      (by simp only [List.length_append]; omega)
  | case5 fuel left token after hsign =>
    obtain ⟨rfl, rfl⟩ : left = t ∧ token :: after = rest := by simpa using h
    obtain rfl : used = [] := List.append_left_eq_self.mp htokens
    exact chainRest_of_notNext (hsame.notNext (notNext_cons hsign))

theorem chainRest_error (items : LooksAhead scope lower room item further)
    (sound : Sound scope.known lower item)
    (more : ∀ {ls rs l r}, Derives scope.known upper ls l → Derives scope.known lower rs r →
      Derives scope.known upper (ls ++ sign :: rs) (join l r))
    {fuel : Nat} {left : Tree} {tokens : List Token} {fault : Fault} {place : Nat}
    (hroom : tokens.length ≤ room)
    (h : chainRest sign join item fuel left tokens = .error (.malformed fault place)) :
    ∃ front back, tokens = front ++ back ∧ place = nextOffset scope back ∧
      (∀ ls, Derives scope.known upper ls left → Spelled front →
        ∃ more t, Derives scope.known upper (ls ++ front.map Token.lexeme ++ more) t) ∧
      ∀ k bound {other}, SameNext back other → (front ++ other).length ≤ bound →
        ∃ e, chainRest sign join (further k) bound left (front ++ other) = .error e := by
  fun_induction chainRest sign join item fuel left tokens with
  | case1 left tokens => cases h
  | case2 fuel left => cases h
  | case3 fuel left token after hsign e hitem =>
    obtain rfl := Except.error.inj h
    rw [List.length_cons] at hroom
    obtain ⟨front, back, rfl, hplace, hstuck⟩ := items.error (by omega) hitem
    refine ⟨token :: front, back, rfl, hplace, ?_, ?_⟩
    · intro ls hls hspelled
      obtain ⟨rs, t, hderives⟩ := hstuck.completable (spelled_cons hspelled)
      exact ⟨rs, _, by simpa [hsign] using more hls hderives⟩
    · intro k bound other hsame hbound
      obtain ⟨e, he⟩ := hstuck.fails k hsame
      rw [List.cons_append, List.length_cons] at hbound
      obtain ⟨bound, rfl⟩ : ∃ n, bound = n + 1 := Nat.exists_eq_add_one.mpr (by omega)
      exact ⟨e, by rw [List.cons_append, chainRest, if_pos hsign, he]⟩
  | case4 fuel left token after hsign right remaining hitem ih =>
    obtain ⟨rs, rfl, hrs⟩ := sound.ok hitem
    rw [List.length_cons, List.length_append] at hroom
    obtain ⟨front, back, rfl, hplace, hcompletable, hfails⟩ := ih (by omega) h
    refine ⟨token :: (rs ++ front), back, by simp, hplace, ?_, ?_⟩
    · intro ls hls hspelled
      obtain ⟨hspelledItem, hspelledRest⟩ := spelled_append.mp (spelled_cons hspelled)
      obtain ⟨rest, t, hderives⟩ := hcompletable _ (more hls (hrs hspelledItem)) hspelledRest
      exact ⟨rest, t, by simpa [hsign] using hderives⟩
    · intro k bound other hsame hbound
      simp only [List.cons_append, List.length_cons, List.length_append] at hbound
      obtain ⟨bound, rfl⟩ : ∃ n, bound = n + 1 := Nat.exists_eq_add_one.mpr (by omega)
      obtain ⟨e, he⟩ := hfails k bound hsame (by simp only [List.length_append]; omega)
      refine ⟨e, ?_⟩
      rw [List.cons_append, List.append_assoc, chainRest, if_pos hsign,
        items.ok hitem k (hsame.append front)]
      exact he
  | case5 fuel left token after hsign => cases h

theorem chain (items : LooksAhead scope lower room item further)
    (sound : Sound scope.known lower item)
    (first : ∀ {ts t}, Derives scope.known lower ts t → Derives scope.known upper ts t)
    (more : ∀ {ls rs l r}, Derives scope.known upper ls l → Derives scope.known lower rs r →
      Derives scope.known upper (ls ++ sign :: rs) (join l r)) :
    LooksAhead scope upper room (Condition.chain sign join item)
      (fun k ↦ Condition.chain sign join (further k)) where
  ok {used rest t} h k other hsame := by
    unfold Condition.chain at h
    split at h
    · cases h
    · rename_i left after hleft
      obtain ⟨ls, hused, -⟩ := sound.ok hleft
      obtain ⟨later, rfl, -⟩ := sound.chainRest_ok more h
      obtain rfl : used = ls ++ later := List.append_cancel_right (by simpa using hused)
      rw [hused] at hleft
      rw [List.append_assoc]
      refine (chain_of_item (items.ok hleft k (hsame.append later))).trans ?_
      exact items.chainRest_ok sound more k le_rfl le_rfl h hsame
  error {tokens fault place} hroom h := by
    unfold Condition.chain at h
    split at h
    · rename_i e hleft
      obtain rfl := Except.error.inj h
      obtain ⟨front, back, rfl, hplace, hstuck⟩ := items.error hroom hleft
      refine ⟨front, back, rfl, hplace, hstuck.loosen first fun k other e _ he ↦ ?_⟩
      simp only [Condition.chain, he]
    · rename_i left after hleft
      obtain ⟨ls, rfl, hls⟩ := sound.ok hleft
      rw [List.length_append] at hroom
      obtain ⟨front, back, rfl, hplace, hcompletable, hfails⟩ :=
        items.chainRest_error sound more (by omega) h
      refine ⟨ls ++ front, back, by simp, hplace, ?_, ?_⟩
      · intro hspelled
        obtain ⟨hspelledFirst, hspelledRest⟩ := spelled_append.mp hspelled
        obtain ⟨rest, t, hderives⟩ := hcompletable _ (first (hls hspelledFirst)) hspelledRest
        exact ⟨rest, t, by simpa using hderives⟩
      · intro k other hsame
        obtain ⟨e, he⟩ := hfails k _ hsame le_rfl
        refine ⟨e, ?_⟩
        rw [List.append_assoc]
        exact (chain_of_item (items.ok hleft k (hsame.append front))).trans he

end Chain

end LooksAhead

theorem derives_true (known : List Text) :
    Derives known .disjunction [.name "true"] (.literal (.bool true)) :=
  .firstConjunction (.firstNegation (.plain (.alone .yes)))

/-- **Lookahead.** With room for all its tokens, the reader decides by the next token. -/
theorem disjunction_looksAhead (scope : Scope) (depth : Nat) :
    LooksAhead scope .disjunction depth (disjunction scope depth)
      (fun k ↦ disjunction scope (k + depth)) := by
  induction depth with
  | zero =>
    constructor
    · intro used rest t h
      cases h
    · intro tokens fault place hroom h
      obtain rfl : tokens = [] := List.length_eq_zero_iff.mp (Nat.le_zero.mp hroom)
      obtain ⟨-, rfl⟩ := Error.malformed.inj (Except.error.inj h)
      refine ⟨[], [], rfl, rfl, fun _ ↦ ⟨[.name "true"], _, derives_true scope.known⟩, ?_⟩
      intro k other hsame
      obtain rfl := hsame.eq_nil
      cases k with
      | zero => exact ⟨_, rfl⟩
      | succ k => exact ⟨_, rfl⟩
  | succ depth ih =>
    have inner := disjunction_sound scope depth
    have negation := ((ih.operand inner).comparison inner.operand).negation inner.operand.comparison
    have sound := inner.operand.comparison.negation
    exact (negation.chain sound .firstNegation .and).chain (sound.chain .firstNegation .and)
      .firstConjunction .or

/-! ## Rows that no text is scanned to -/

/-- A lexeme, with the name in it replaced when it has more than one dollar sign before it. -/
def Lexeme.respelled : Lexeme → Lexeme
  | .name spelling =>
    if spelling.dropWhile (· == '$') = bareName spelling then .name spelling else .name "true"
  | lexeme => lexeme

theorem respelled_of_spelled {tokens : List Token} (h : Spelled tokens) {token : Token}
    (hmem : token ∈ tokens) : token.lexeme.respelled = token.lexeme := by
  cases hlexeme : token.lexeme with
  | name spelling => exact if_pos (h token hmem spelling hlexeme)
  | _ => rfl

theorem map_respelled {tokens : List Token} (h : Spelled tokens) :
    (tokens.map Token.lexeme).map Lexeme.respelled = tokens.map Token.lexeme := by
  rw [List.map_map]
  exact List.map_congr_left fun token hmem ↦ respelled_of_spelled h hmem

theorem respelled_spelled (lexeme : Lexeme) {spelling : Text}
    (h : lexeme.respelled = .name spelling) :
    spelling.dropWhile (· == '$') = bareName spelling := by
  cases lexeme with
  | name own =>
    rw [Lexeme.respelled] at h
    split_ifs at h with hown
    · obtain rfl := Lexeme.name.inj h
      exact hown
    · obtain rfl := Lexeme.name.inj h
      decide
  | _ => cases h

/-- The grammar cannot tell one operand from another, so replacing names keeps a row derived. -/
theorem Derives.respelled {known : List Text} {part : Part} {ts : List Lexeme} {t : Tree}
    (h : Derives known part ts t) : ∃ u, Derives known part (ts.map Lexeme.respelled) u := by
  induction h with
  | whole n => exact ⟨_, .whole n⟩
  | float x => exact ⟨_, .float x⟩
  | text t => exact ⟨_, .text t⟩
  | yes => exact ⟨_, .yes⟩
  | no => exact ⟨_, .no⟩
  | null => exact ⟨_, .null⟩
  | @name spelling hkeyword hknown =>
    rw [List.map_singleton, Lexeme.respelled]
    split_ifs with hspelled
    · exact ⟨_, .name hkeyword hknown⟩
    · exact ⟨_, .yes⟩
  | parentheses _ ih =>
    obtain ⟨u, hu⟩ := ih
    exact ⟨u, by simpa [Lexeme.respelled] using Derives.parentheses hu⟩
  | alone _ ih =>
    obtain ⟨u, hu⟩ := ih
    exact ⟨u, .alone hu⟩
  | compare op _ _ ihLeft ihRight =>
    obtain ⟨l, hl⟩ := ihLeft
    obtain ⟨r, hr⟩ := ihRight
    exact ⟨_, by simpa [Lexeme.respelled] using Derives.compare op hl hr⟩
  | plain _ ih =>
    obtain ⟨u, hu⟩ := ih
    exact ⟨u, .plain hu⟩
  | not _ ih =>
    obtain ⟨u, hu⟩ := ih
    exact ⟨_, .not hu⟩
  | firstNegation _ ih =>
    obtain ⟨u, hu⟩ := ih
    exact ⟨u, .firstNegation hu⟩
  | and _ _ ihLeft ihRight =>
    obtain ⟨l, hl⟩ := ihLeft
    obtain ⟨r, hr⟩ := ihRight
    exact ⟨_, by simpa [Lexeme.respelled] using Derives.and hl hr⟩
  | firstConjunction _ ih =>
    obtain ⟨u, hu⟩ := ih
    exact ⟨u, .firstConjunction hu⟩
  | or _ _ ihLeft ihRight =>
    obtain ⟨l, hl⟩ := ihLeft
    obtain ⟨r, hr⟩ := ihRight
    exact ⟨_, by simpa [Lexeme.respelled] using Derives.or hl hr⟩

/-! ## Dead ends -/

/-- What is derived is read to its end, however much room there is beyond its length. -/
theorem Derives.disjunction_eq_ok {scope : Scope} {tokens : List Token} {t : Tree}
    (h : Derives scope.known .disjunction (tokens.map Token.lexeme) t) (hspelled : Spelled tokens)
    {depth : Nat} (hdepth : tokens.length ≤ depth + 1) :
    disjunction scope (depth + 1) tokens = .ok (t, []) := by
  have hfound := h.found ⟨rfl, hspelled, hdepth⟩ [] (fun op ↦ notNext_nil) notNext_nil
  rwa [List.append_nil] at hfound

/-- Where tokens are found malformed, those before can be completed, and no row that goes on with
the same next token is derived. -/
theorem exists_deadEnd_of_ofTokens {scope : Scope} {tokens : List Token} (hspelled : Spelled tokens)
    {fault : Fault} {place : Nat} (h : ofTokens scope tokens = .error (.malformed fault place)) :
    ∃ front back, tokens = front ++ back ∧ place = nextOffset scope back ∧
      (∃ more t, Derives scope.known .disjunction (front.map Token.lexeme ++ more) t) ∧
      ∀ other, SameNext back other → Spelled other →
        ∀ t, ¬ Derives scope.known .disjunction ((front ++ other).map Token.lexeme) t := by
  have looksAhead := disjunction_looksAhead scope tokens.length
  rw [ofTokens] at h
  split_ifs at h with hempty
  · obtain rfl := List.isEmpty_iff.mp hempty
    obtain ⟨-, rfl⟩ := Error.malformed.inj (Except.error.inj h)
    refine ⟨[], [], rfl, rfl, ⟨_, _, derives_true scope.known⟩, fun other hsame _ t ht ↦ ?_⟩
    obtain rfl := hsame.eq_nil
    exact ht.ne_nil rfl
  · -- A reader with room for both rows would have to read the derived one to its end.
    have hread : ∀ front other t, Spelled front → Spelled other →
        Derives scope.known .disjunction ((front ++ other).map Token.lexeme) t →
        disjunction scope ((front ++ other).length + 1 + tokens.length) (front ++ other) =
          .ok (t, []) := by
      intro front other t hfront hother ht
      rw [Nat.add_right_comm]
      exact ht.disjunction_eq_ok (spelled_append.mpr ⟨hfront, hother⟩) (by omega)
    split at h
    · rename_i e herror
      obtain rfl := Except.error.inj h
      obtain ⟨front, back, rfl, hplace, hstuck⟩ := looksAhead.error le_rfl herror
      have hfront := (spelled_append.mp hspelled).1
      refine ⟨front, back, rfl, hplace, hstuck.completable hfront, fun other hsame hother t ht ↦ ?_⟩
      obtain ⟨e, he⟩ := hstuck.fails ((front ++ other).length + 1) hsame
      cases he.symm.trans (hread front other t hfront hother ht)
    · cases h
    · rename_i tree found offset later htree
      obtain ⟨-, rfl⟩ := Error.malformed.inj (Except.error.inj h)
      obtain ⟨used, rfl, hderives⟩ := (disjunction_sound scope _).ok htree
      have hused := (spelled_append.mp hspelled).1
      refine ⟨used, _, rfl, rfl, ⟨[], tree, by simpa using hderives hused⟩,
        fun other hsame hother t ht ↦ ?_⟩
      have hagain := looksAhead.ok htree ((used ++ other).length + 1) hsame
      obtain ⟨place, more, rfl⟩ := hsame.exists_cons
      cases hagain.symm.trans (hread used _ t hused hother ht)

theorem scanFrom_offsets {offset : Nat} {t : Text} {tokens : List Token}
    (h : scanFrom offset t = .ok tokens) :
    tokens.Pairwise (fun first second ↦ first.offset < second.offset) ∧
      ∀ token ∈ tokens, offset ≤ token.offset ∧ token.offset < offset + t.length := by
  fun_induction scanFrom offset t generalizing tokens with
  | case1 =>
    cases h
    exact ⟨.nil, by simp⟩
  | case2 offset c cs hblank ih =>
    obtain ⟨hordered, hplaces⟩ := ih h
    refine ⟨hordered, fun token hmem ↦ ?_⟩
    have hplace := hplaces token hmem
    rw [List.length_cons]
    omega
  | case3 | case4 | case5 | case7 => cases h
  | case6 offset c cs hblank lexeme rest hlexeme hshort more hrest ih =>
    cases h
    obtain ⟨hordered, hplaces⟩ := ih hrest
    have hlength : (c :: cs).length = cs.length + 1 := rfl
    constructor
    · refine List.pairwise_cons.mpr ⟨fun token hmem ↦ ?_, hordered⟩
      have hplace := hplaces token hmem
      dsimp only
      omega
    · intro token hmem
      rcases List.mem_cons.mp hmem with rfl | hmem
      · simp
      · have hplace := hplaces token hmem
        omega

/-- **A malformed condition is reported at its first dead end.** The offset is that of a token or of
the end. The tokens before it can be completed to a row that the grammar accepts. With the token
there they cannot, whatever follows; and at the end, the row is not accepted as it is. -/
theorem malformed_at_first_deadEnd {condition : Text} {known : List Text} {tokens : List Token}
    {fault : Fault} {place : Nat} (hscan : scan condition = .ok tokens)
    (hparse : parse condition known = .error (.malformed fault place)) :
    ∃ front back, tokens = front ++ back ∧
      (∀ token ∈ front, token.offset < place) ∧ (∀ token ∈ back, place ≤ token.offset) ∧
      (∃ more t, Derives known .disjunction (front.map Token.lexeme ++ more) t) ∧
      (back = [] → place = condition.length ∧
        ∀ t, ¬ Derives known .disjunction (tokens.map Token.lexeme) t) ∧
      ∀ token later, back = token :: later → token.offset = place ∧
        ∀ more t,
          ¬ Derives known .disjunction (front.map Token.lexeme ++ token.lexeme :: more) t := by
  have hspelled := spelled_of_scanFrom hscan
  obtain ⟨hordered, hplaces⟩ := scanFrom_offsets hscan
  rw [parse, hscan] at hparse
  obtain ⟨front, back, rfl, rfl, hcompletable, hdead⟩ := exists_deadEnd_of_ofTokens hspelled hparse
  obtain ⟨-, hback, hbefore⟩ := List.pairwise_append.mp hordered
  refine ⟨front, back, rfl, ?_, ?_, hcompletable, ?_, ?_⟩
  · intro token hmem
    cases back with
    | nil => simpa [nextOffset] using (hplaces token (List.mem_append_left _ hmem)).2
    | cons next later => exact hbefore token hmem next List.mem_cons_self
  · intro token hmem
    cases back with
    | nil => cases hmem
    | cons next later =>
      rcases List.mem_cons.mp hmem with rfl | hlater
      · exact le_rfl
      · exact (List.rel_of_pairwise_cons hback hlater).le
  · rintro rfl
    exact ⟨rfl, hdead [] rfl (by simp [Spelled])⟩
  · rintro token later rfl
    refine ⟨rfl, fun more t ht ↦ ?_⟩
    obtain ⟨hfront, hnext⟩ := spelled_append.mp hspelled
    -- The row may hold names that no text is scanned to; others in their place will do as well.
    obtain ⟨u, hu⟩ := ht.respelled
    let other := token :: more.map fun lexeme ↦ (⟨lexeme.respelled, 0⟩ : Token)
    have hother : Spelled other := by
      intro next hmem spelling hname
      rcases List.mem_cons.mp hmem with rfl | hmem
      · exact hnext _ List.mem_cons_self spelling hname
      · obtain ⟨lexeme, -, rfl⟩ := List.mem_map.mp hmem
        exact respelled_spelled lexeme hname
    refine hdead other (SameNext.cons token _ _) hother u ?_
    have htoken := respelled_of_spelled hnext List.mem_cons_self
    rw [List.map_append, List.map_cons, map_respelled hfront, htoken] at hu
    simpa [other, Function.comp_def] using hu

/-- A name after a name is a dead end inside parentheses that are still open. -/
theorem second_name_is_deadEnd :
    ∃ front back, [⟨.name "$a", 0⟩, ⟨.and, 3⟩, ⟨.opening, 6⟩, ⟨.name "$b", 7⟩, ⟨.name "$a", 10⟩] =
        front ++ back ∧
      (∀ token ∈ front, token.offset < 10) ∧ (∀ token ∈ back, 10 ≤ token.offset) ∧
      (∃ more t, Derives ["a", "b"] .disjunction (front.map Token.lexeme ++ more) t) ∧
      (back = [] → 10 = ("$a && ($b $a" : Text).length ∧
        ∀ t, ¬ Derives ["a", "b"] .disjunction
          [.name "$a", .and, .opening, .name "$b", .name "$a"] t) ∧
      ∀ token later, back = token :: later → token.offset = 10 ∧
        ∀ more t, ¬ Derives ["a", "b"] .disjunction
          (front.map Token.lexeme ++ token.lexeme :: more) t := by
  have hscan : scan "$a && ($b $a" =
      .ok [⟨.name "$a", 0⟩, ⟨.and, 3⟩, ⟨.opening, 6⟩, ⟨.name "$b", 7⟩, ⟨.name "$a", 10⟩] := by
    decide +kernel
  have hparse : parse "$a && ($b $a" ["a", "b"] = .error (.malformed .closingExpected 10) := by
    decide +kernel
  exact malformed_at_first_deadEnd hscan hparse

end Condition

end PageCompiler
