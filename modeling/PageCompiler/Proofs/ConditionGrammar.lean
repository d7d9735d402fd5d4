import Mathlib.Data.List.Basic
import PageCompiler.Condition.Parser
import PageCompiler.Proofs.Texts

/-!
# The grammar of conditions

The grammar of conditions as a relation between rows of lexemes and trees, and the reader of
conditions as a decision of that relation: it gives a tree exactly when the row derives that tree,
and there is never more than one.

## Soundness and completeness

Soundness goes by the way the reader is put together. Each part of it is a function of the part
below, so `Sound` is stated for one part and carried upwards, and the depth of parentheses is the
only induction. It also says of a failing part whom it may blame.

Completeness goes by the derivation. A chain is derived from the right, where its last item is, and
read from the left, so a derived chain is not yet the result of reading it: it is the state that the
loop has reached, with whatever follows still to be looked at. `Found` states this for both kinds of
chains, and plain results for the other parts. A part is found only when what follows cannot go on
with it: no comparison sign may follow anything but an operand, and no conjunction sign a
disjunction.
-/

namespace PageCompiler

variable {spelling t : Text} {fuel : Nat}

namespace Condition

/-! ## The grammar -/

inductive Part where
  /-- Conjunctions with disjunction signs between them. -/
  | disjunction
  /-- Negations with conjunction signs between them. -/
  | conjunction
  /-- A comparison after any number of negation signs. -/
  | negation
  /-- An operand, alone or compared with another. -/
  | comparison
  /-- A literal, a name, or a disjunction in parentheses. -/
  | operand
  deriving DecidableEq, Repr

/-- The spellings that are no names. -/
def keywords : List Text := ["true", "false", "null"]

def bareName : Text → Text
  | '$' :: name => name
  | name => name

/-- `Derives known part ts t`: the lexemes `ts` are of the given part of the grammar over the known
names, and `t` is their tree. -/
inductive Derives (known : List Text) : Part → List Lexeme → Tree → Prop
  | whole (n : Nat) : Derives known .operand [.whole n] (.literal (.whole n))
  | float (x : Binary64) : Derives known .operand [.float x] (.literal (.float x))
  | text (t : Text) : Derives known .operand [.text t] (.literal (.text t))
  | yes : Derives known .operand [.name "true"] (.literal (.bool true))
  | no : Derives known .operand [.name "false"] (.literal (.bool false))
  | null : Derives known .operand [.name "null"] (.literal .null)
  | name {spelling : Text} (hkeyword : spelling ∉ keywords) (hknown : bareName spelling ∈ known) :
    Derives known .operand [.name spelling] (.var (bareName spelling))
  | parentheses {ts : List Lexeme} {t : Tree} (inside : Derives known .disjunction ts t) :
    Derives known .operand (.opening :: (ts ++ [.closing])) t
  | alone {ts : List Lexeme} {t : Tree} (operand : Derives known .operand ts t) :
    Derives known .comparison ts t
  | compare {ls rs : List Lexeme} {l r : Tree} (op : Comparison)
    (left : Derives known .operand ls l) (right : Derives known .operand rs r) :
    Derives known .comparison (ls ++ .comparison op :: rs) (.compare op l r)
  | plain {ts : List Lexeme} {t : Tree} (comparison : Derives known .comparison ts t) :
    Derives known .negation ts t
  | not {ts : List Lexeme} {t : Tree} (negated : Derives known .negation ts t) :
    Derives known .negation (.not :: ts) (.not t)
  | firstNegation {ts : List Lexeme} {t : Tree} (first : Derives known .negation ts t) :
    Derives known .conjunction ts t
  | and {ls rs : List Lexeme} {l r : Tree} (left : Derives known .conjunction ls l)
    (right : Derives known .negation rs r) :
    Derives known .conjunction (ls ++ .and :: rs) (.and l r)
  | firstConjunction {ts : List Lexeme} {t : Tree} (first : Derives known .conjunction ts t) :
    Derives known .disjunction ts t
  | or {ls rs : List Lexeme} {l r : Tree} (left : Derives known .disjunction ls l)
    (right : Derives known .conjunction rs r) :
    Derives known .disjunction (ls ++ .or :: rs) (.or l r)

variable {ts : List Lexeme} {scope : Scope} {e : Error} {left : Tree} {item : TreeReader}

theorem Derives.ne_nil {known : List Text} {part : Part} {t : Tree} (h : Derives known part ts t) :
    ts ≠ [] := by
  induction h <;> simp_all

/-! ## Spellings -/

/-- Whether no name among the tokens has more than one dollar sign before it. -/
def Spelled (tokens : List Token) : Prop :=
  ∀ token ∈ tokens, ∀ spelling, token.lexeme = .name spelling →
    spelling.dropWhile (· == '$') = bareName spelling

theorem spelled_append {first second : List Token} :
    Spelled (first ++ second) ↔ Spelled first ∧ Spelled second := List.forall_mem_append

theorem spelled_cons {token : Token} {rest : List Token} (h : Spelled (token :: rest)) :
    Spelled rest := fun other hother ↦ h other (List.mem_cons_of_mem _ hother)

theorem keyword?_eq_none_iff : keyword? spelling = none ↔ spelling ∉ keywords := by
  simp only [keyword?, keywords, List.mem_cons, List.not_mem_nil, or_false, not_or]
  split_ifs <;> simp_all

/-! ## Soundness -/

theorem derives_of_nameTree {t : Tree} (h : nameTree scope spelling = .ok t)
    (hspelling : spelling.dropWhile (· == '$') = bareName spelling) :
    Derives scope.known .operand [.name spelling] t := by
  rw [nameTree] at h
  split at h
  · rename_i value hkeyword
    obtain rfl := Except.ok.inj h
    -- The three keywords are tried in turn, and each has its own rule.
    rw [keyword?] at hkeyword
    split_ifs at hkeyword with htrue hfalse hnull <;> obtain rfl := Option.some.inj hkeyword
    · exact htrue ▸ .yes
    · exact hfalse ▸ .no
    · exact hnull ▸ .null
  · rename_i hkeyword
    dsimp only at h
    split_ifs at h with hknown
    rw [hspelling] at h hknown
    obtain rfl := Except.ok.inj h
    exact .name (keyword?_eq_none_iff.mp hkeyword) hknown

theorem nameTree_eq_error (h : nameTree scope spelling = .error e) :
    e = .unknown (spelling.dropWhile (· == '$')) ∧
      spelling.dropWhile (· == '$') ∉ scope.known := by
  rw [nameTree] at h
  split at h
  · cases h
  · dsimp only at h
    split_ifs at h with hknown
    exact ⟨(Except.error.inj h).symm, hknown⟩

/-- Whether an error can be blamed on the tokens: a fault in the grammar can always be, and a name
only when it is there and not known. -/
def Blames (known : List Text) (tokens : List Token) : Error → Prop
  | .malformed _ _ => True
  | .unknown name => ∃ token ∈ tokens, ∃ spelling, token.lexeme = .name spelling ∧
      spelling.dropWhile (· == '$') = name ∧ name ∉ known
  | .numeral _ => False

theorem Blames.mono {known : List Text} {some all : List Token} (hsub : ∀ token ∈ some, token ∈ all)
    (h : Blames known some e) : Blames known all e := by
  cases e with
  | malformed fault offset => trivial
  | numeral refusal => exact h
  | unknown name =>
    obtain ⟨token, hmem, hspelling⟩ := h
    exact ⟨token, hsub token hmem, hspelling⟩

/-- A reader that takes derivations of a part off the front, and blames only what is there. -/
structure Sound (known : List Text) (part : Part) (item : TreeReader) : Prop where
  ok : ∀ {tokens t rest}, item tokens = .ok (t, rest) → ∃ used, tokens = used ++ rest ∧
    (Spelled used → Derives known part (used.map Token.lexeme) t)
  error : ∀ {tokens e}, item tokens = .error e → Blames known tokens e

namespace Sound

variable {scope : Scope} {item : TreeReader}

theorem length_le {known : List Text} {part : Part} (h : Sound known part item)
    {tokens rest : List Token} {t : Tree} (hok : item tokens = .ok (t, rest)) :
    rest.length ≤ tokens.length := by
  obtain ⟨used, rfl, -⟩ := h.ok hok
  simp

theorem operand (inner : Sound scope.known .disjunction item) :
    Sound scope.known .operand (Condition.operand scope item) where
  ok {tokens t rest} h := by
    unfold Condition.operand at h
    split at h
    · cases h
    · rename_i n offset after
      obtain ⟨rfl, rfl⟩ : _ = t ∧ after = rest := by simpa using h
      exact ⟨[⟨.whole n, offset⟩], rfl, fun _ ↦ .whole n⟩
    · rename_i x offset after
      obtain ⟨rfl, rfl⟩ : _ = t ∧ after = rest := by simpa using h
      exact ⟨[⟨.float x, offset⟩], rfl, fun _ ↦ .float x⟩
    · rename_i text offset after
      obtain ⟨rfl, rfl⟩ : _ = t ∧ after = rest := by simpa using h
      exact ⟨[⟨.text text, offset⟩], rfl, fun _ ↦ .text text⟩
    · rename_i spelling offset after
      obtain ⟨tree, htree, hpair⟩ := exists_of_map_eq_ok h
      obtain ⟨rfl, rfl⟩ : tree = t ∧ after = rest := by simpa using hpair
      exact ⟨[⟨.name spelling, offset⟩], rfl, fun hspelled ↦
        derives_of_nameTree htree (hspelled _ (List.mem_singleton_self _) spelling rfl)⟩
    · rename_i offset after
      split at h
      · cases h
      · rename_i tree closing more hinner
        obtain ⟨rfl, rfl⟩ : tree = t ∧ more = rest := by simpa using h
        obtain ⟨used, rfl, hderives⟩ := inner.ok hinner
        refine ⟨⟨.opening, offset⟩ :: (used ++ [⟨.closing, closing⟩]), by simp, fun hspelled ↦ ?_⟩
        simpa using Derives.parentheses (hderives (spelled_append.mp (spelled_cons hspelled)).1)
      · cases h
    · cases h
  error {tokens e} h := by
    unfold Condition.operand at h
    split at h
    · cases h; trivial
    · cases h
    · cases h
    · cases h
    · rename_i spelling offset after
      obtain ⟨rfl, hunknown⟩ := nameTree_eq_error (eq_error_of_map_eq_error h)
      exact ⟨_, List.mem_cons_self, spelling, rfl, rfl, hunknown⟩
    · split at h
      · rename_i hinner
        cases h
        exact (inner.error hinner).mono fun token ↦ List.mem_cons_of_mem _
      · cases h
      · cases h; trivial
    · cases h; trivial

theorem comparison {known : List Text} (operand : Sound known .operand item) :
    Sound known .comparison (Condition.comparison item) where
  ok {tokens t rest} h := by
    unfold Condition.comparison at h
    split at h
    · cases h
    · rename_i left op offset after hleft
      obtain ⟨⟨right, more⟩, hright, hpair⟩ := exists_of_map_eq_ok h
      obtain ⟨rfl, rfl⟩ : _ = t ∧ more = rest := by simpa using hpair
      obtain ⟨ls, rfl, hls⟩ := operand.ok hleft
      obtain ⟨rs, rfl, hrs⟩ := operand.ok hright
      refine ⟨ls ++ ⟨.comparison op, offset⟩ :: rs, by simp, fun hspelled ↦ ?_⟩
      obtain ⟨hspelledLeft, hspelledRight⟩ := spelled_append.mp hspelled
      simpa using Derives.compare op (hls hspelledLeft) (hrs (spelled_cons hspelledRight))
    · rename_i left after _ hleft
      obtain ⟨rfl, rfl⟩ : left = t ∧ after = rest := by simpa using h
      obtain ⟨used, rfl, hused⟩ := operand.ok hleft
      exact ⟨used, rfl, fun hspelled ↦ .alone (hused hspelled)⟩
  error {tokens e} h := by
    unfold Condition.comparison at h
    split at h
    · rename_i hleft
      exact Except.error.inj h ▸ operand.error hleft
    · rename_i left op offset after hleft
      obtain ⟨ls, rfl, -⟩ := operand.ok hleft
      refine (operand.error (eq_error_of_map_eq_error h)).mono fun token hmem ↦ ?_
      exact List.mem_append_right _ (List.mem_cons_of_mem _ hmem)
    · cases h

theorem negation {known : List Text} (comparison : Sound known .comparison item) :
    Sound known .negation (Condition.negation item) where
  ok {tokens t rest} h := by
    fun_induction Condition.negation item tokens generalizing t rest with
    | case1 offset after ih =>
      obtain ⟨⟨tree, more⟩, htree, hpair⟩ := exists_of_map_eq_ok h
      obtain ⟨rfl, rfl⟩ : _ = t ∧ more = rest := by simpa using hpair
      obtain ⟨used, rfl, hused⟩ := ih htree
      exact ⟨⟨.not, offset⟩ :: used, rfl, fun hspelled ↦ .not (hused (spelled_cons hspelled))⟩
    | case2 tokens hnot =>
      obtain ⟨used, rfl, hused⟩ := comparison.ok h
      exact ⟨used, rfl, fun hspelled ↦ .plain (hused hspelled)⟩
  error {tokens e} h := by
    fun_induction Condition.negation item tokens with
    | case1 offset after ih =>
      exact (ih (eq_error_of_map_eq_error h)).mono fun token ↦ List.mem_cons_of_mem _
    | case2 tokens hnot => exact comparison.error h

section Chain

variable {known : List Text} {lower upper : Part} {sign : Lexeme} {join : Tree → Tree → Tree}

theorem chainRest_ok (lowerSound : Sound known lower item)
    (more : ∀ {ls rs l r}, Derives known upper ls l → Derives known lower rs r →
      Derives known upper (ls ++ sign :: rs) (join l r)) {t : Tree} {tokens rest : List Token}
    (h : chainRest sign join item fuel left tokens = .ok (t, rest)) :
    ∃ used, tokens = used ++ rest ∧ ∀ ls, Derives known upper ls left → Spelled used →
      Derives known upper (ls ++ used.map Token.lexeme) t := by
  fun_induction chainRest sign join item fuel left tokens with
  | case1 left tokens =>
    obtain ⟨rfl, rfl⟩ : left = t ∧ tokens = rest := by simpa using h
    exact ⟨[], rfl, fun ls hls _ ↦ by simpa using hls⟩
  | case2 fuel left =>
    obtain ⟨rfl, rfl⟩ : left = t ∧ [] = rest := by simpa using h
    exact ⟨[], rfl, fun ls hls _ ↦ by simpa using hls⟩
  | case3 fuel left token after hsign e hitem => cases h
  | case4 fuel left token after hsign right remaining hitem ih =>
    obtain ⟨rs, rfl, hrs⟩ := lowerSound.ok hitem
    obtain ⟨used, rfl, hused⟩ := ih h
    refine ⟨token :: (rs ++ used), by simp, fun ls hls hspelled ↦ ?_⟩
    obtain ⟨hspelledItem, hspelledRest⟩ := spelled_append.mp (spelled_cons hspelled)
    simpa [hsign] using hused _ (more hls (hrs hspelledItem)) hspelledRest
  | case5 fuel left token after hsign =>
    obtain ⟨rfl, rfl⟩ : left = t ∧ token :: after = rest := by simpa using h
    exact ⟨[], rfl, fun ls hls _ ↦ by simpa using hls⟩

theorem chainRest_error (lowerSound : Sound known lower item) {tokens : List Token}
    (h : chainRest sign join item fuel left tokens = .error e) : Blames known tokens e := by
  fun_induction chainRest sign join item fuel left tokens with
  | case1 left tokens => cases h
  | case2 fuel left => cases h
  | case3 fuel left token after hsign other hitem =>
    obtain rfl := Except.error.inj h
    exact (lowerSound.error hitem).mono fun token ↦ List.mem_cons_of_mem _
  | case4 fuel left token after hsign right remaining hitem ih =>
    obtain ⟨rs, rfl, -⟩ := lowerSound.ok hitem
    refine (ih h).mono fun token hmem ↦ ?_
    exact List.mem_cons_of_mem _ (List.mem_append_right _ hmem)
  | case5 fuel left token after hsign => cases h

theorem chain (lowerSound : Sound known lower item)
    (first : ∀ {ts t}, Derives known lower ts t → Derives known upper ts t)
    (more : ∀ {ls rs l r}, Derives known upper ls l → Derives known lower rs r →
      Derives known upper (ls ++ sign :: rs) (join l r)) :
    Sound known upper (Condition.chain sign join item) where
  ok {tokens t rest} h := by
    unfold Condition.chain at h
    split at h
    · cases h
    · rename_i left after hleft
      obtain ⟨ls, rfl, hls⟩ := lowerSound.ok hleft
      obtain ⟨used, rfl, hused⟩ := chainRest_ok lowerSound more h
      refine ⟨ls ++ used, by simp, fun hspelled ↦ ?_⟩
      obtain ⟨hspelledFirst, hspelledRest⟩ := spelled_append.mp hspelled
      simpa using hused _ (first (hls hspelledFirst)) hspelledRest
  error {tokens e} h := by
    unfold Condition.chain at h
    split at h
    · rename_i hleft
      exact Except.error.inj h ▸ lowerSound.error hleft
    · rename_i left after hleft
      obtain ⟨ls, rfl, -⟩ := lowerSound.ok hleft
      exact (chainRest_error lowerSound h).mono fun token ↦ List.mem_append_right _

end Chain

end Sound

/-- The reader of a part, with parentheses in its operands at most `depth` deep. -/
def reader (scope : Scope) (depth : Nat) : Part → TreeReader :=
  let operand := operand scope (disjunction scope depth)
  let negation := negation (comparison operand)
  let conjunction := chain .and .and negation
  fun
  | .operand => operand
  | .comparison => comparison operand
  | .negation => negation
  | .conjunction => conjunction
  | .disjunction => chain .or .or conjunction

/-- **Soundness.** Every part is sound at every depth. -/
theorem disjunction_sound (scope : Scope) (depth : Nat) :
    Sound scope.known .disjunction (disjunction scope depth) := by
  induction depth with
  | zero => exact ⟨fun h ↦ (nomatch h), fun h ↦ Except.error.inj h ▸ trivial⟩
  | succ depth ih =>
    have negation := ih.operand.comparison.negation
    exact (negation.chain .firstNegation .and).chain .firstConjunction .or

theorem conjunction_sound (scope : Scope) (depth : Nat) :
    Sound scope.known .conjunction (reader scope depth .conjunction) :=
  (disjunction_sound scope depth).operand.comparison.negation.chain .firstNegation .and

theorem negation_sound (scope : Scope) (depth : Nat) :
    Sound scope.known .negation (reader scope depth .negation) :=
  (disjunction_sound scope depth).operand.comparison.negation

/-! ## Chains -/

def NotNext (sign : Lexeme) (rest : List Token) : Prop :=
  ∀ token ∈ rest.head?, token.lexeme ≠ sign

theorem notNext_nil {sign : Lexeme} : NotNext sign [] := by
  simp [NotNext]

theorem notNext_cons {sign : Lexeme} {token : Token} {rest : List Token}
    (h : token.lexeme ≠ sign) : NotNext sign (token :: rest) := by
  simpa [NotNext] using h

section Chain

variable {sign : Lexeme} {join : Tree → Tree → Tree} {item : TreeReader}

theorem chainRest_of_notNext {rest : List Token} (h : NotNext sign rest) :
    chainRest sign join item fuel left rest = .ok (left, rest) := by
  cases fuel with
  | zero => rfl
  | succ fuel =>
    cases rest with
    | nil => rfl
    | cons token more => exact if_neg (h token rfl)

/-- The number of remaining tokens is as good a bound as any larger one. -/
theorem chainRest_fuel {known : List Text} {part : Part} (hitem : Sound known part item)
    {first second : Nat} {tokens : List Token} (hfirst : tokens.length ≤ first)
    (hsecond : tokens.length ≤ second) :
    chainRest sign join item first left tokens = chainRest sign join item second left tokens := by
  induction first generalizing second left tokens with
  | zero =>
    obtain rfl : tokens = [] := List.length_eq_zero_iff.mp (Nat.le_zero.mp hfirst)
    rw [chainRest_of_notNext notNext_nil, chainRest_of_notNext notNext_nil]
  | succ first ih =>
    cases tokens with
    | nil => rw [chainRest_of_notNext notNext_nil, chainRest_of_notNext notNext_nil]
    | cons token rest =>
      rw [List.length_cons] at hfirst hsecond
      obtain ⟨second, rfl⟩ : ∃ n, second = n + 1 := Nat.exists_eq_add_one.mpr (by omega)
      simp only [chainRest]
      split_ifs with hsign
      · split
        · rfl
        · rename_i right more hright
          -- Items take tokens from the front, so both bounds are still large enough.
          have hshort := hitem.length_le hright
          exact ih (by omega) (by omega)
      · rfl

theorem chainRest_sign {known : List Text} {part : Part} (hitem : Sound known part item)
    {token : Token} {right : Tree} {used rest : List Token} (hsign : token.lexeme = sign)
    (hright : item (used ++ rest) = .ok (right, rest)) :
    chainRest sign join item (token :: (used ++ rest)).length left (token :: (used ++ rest)) =
      chainRest sign join item rest.length (join left right) rest := by
  rw [List.length_cons, chainRest, if_pos hsign, hright]
  exact chainRest_fuel hitem (by simp) le_rfl

theorem chain_of_item {tokens rest : List Token} {first : Tree}
    (h : item tokens = .ok (first, rest)) :
    chain sign join item tokens = chainRest sign join item rest.length first rest := by
  rw [chain, h]

end Chain

/-! ## Completeness -/

def NoComparison (rest : List Token) : Prop := ∀ op, NotNext (.comparison op) rest

/-- What it means that the tokens `used` of a part are found to be `t`, whatever follows them. The
tree of a chain is what its loop holds when it has come so far. -/
def Found (scope : Scope) (depth : Nat) (used : List Token) (t : Tree) : Part → Prop
  | .operand => ∀ rest, reader scope depth .operand (used ++ rest) = .ok (t, rest)
  | .comparison => ∀ rest, NoComparison rest →
      reader scope depth .comparison (used ++ rest) = .ok (t, rest)
  | .negation => ∀ rest, NoComparison rest →
      reader scope depth .negation (used ++ rest) = .ok (t, rest)
  | .conjunction => ∀ rest, NoComparison rest →
      reader scope depth .conjunction (used ++ rest) =
        chainRest .and .and (reader scope depth .negation) rest.length t rest
  | .disjunction => ∀ rest, NoComparison rest → NotNext .and rest →
      reader scope depth .disjunction (used ++ rest) =
        chainRest .or .or (reader scope depth .conjunction) rest.length t rest

theorem noComparison_cons {token : Token} {rest : List Token}
    (h : ∀ op, token.lexeme ≠ .comparison op) : NoComparison (token :: rest) :=
  fun op ↦ notNext_cons (h op)

/-- Tokens with the given lexemes, well spelled, and room for their parentheses. -/
structure Fits (depth : Nat) (used : List Token) (ts : List Lexeme) : Prop where
  lexemes : used.map Token.lexeme = ts
  spelled : Spelled used
  room : used.length ≤ depth + 1

namespace Fits

variable {depth : Nat} {used : List Token} {ls rs ts : List Lexeme} {lexeme sign : Lexeme}

theorem single (h : Fits depth used [lexeme]) : ∃ offset, used = [⟨lexeme, offset⟩] := by
  obtain ⟨⟨found, offset⟩, rfl, rfl⟩ := List.map_eq_singleton_iff.mp h.lexemes
  exact ⟨offset, rfl⟩

theorem cons (h : Fits depth used (lexeme :: ts)) :
    ∃ offset more, used = ⟨lexeme, offset⟩ :: more ∧ Fits depth more ts := by
  obtain ⟨⟨found, offset⟩, more, rfl, rfl, hmore⟩ := List.map_eq_cons_iff.mp h.lexemes
  have hroom := h.room
  rw [List.length_cons] at hroom
  exact ⟨offset, more, rfl, hmore, spelled_cons h.spelled, by omega⟩

theorem split (h : Fits depth used (ls ++ sign :: rs)) :
    ∃ left offset right, used = left ++ ⟨sign, offset⟩ :: right ∧
      Fits depth left ls ∧ Fits depth right rs := by
  obtain ⟨left, others, rfl, hleft, hothers⟩ := List.map_eq_append_iff.mp h.lexemes
  obtain ⟨⟨found, offset⟩, right, rfl, rfl, hright⟩ := List.map_eq_cons_iff.mp hothers
  obtain ⟨hspelledLeft, hspelledRight⟩ := spelled_append.mp h.spelled
  have hroom := h.room
  rw [List.length_append, List.length_cons] at hroom
  exact ⟨left, offset, right, rfl, ⟨hleft, hspelledLeft, by omega⟩,
    ⟨hright, spelled_cons hspelledRight, by omega⟩⟩

theorem inside (h : Fits depth used (.opening :: (ts ++ [.closing]))) :
    ∃ opening inner closing deeper,
      used = ⟨.opening, opening⟩ :: (inner ++ [⟨.closing, closing⟩]) ∧ depth = deeper + 1 ∧
      Fits deeper inner ts := by
  obtain ⟨opening, others, rfl, hothers⟩ := h.cons
  obtain ⟨inner, closing, after, rfl, hinner, hafter⟩ := hothers.split
  obtain rfl := List.map_eq_nil_iff.mp hafter.lexemes
  have hroom := h.room
  simp only [List.length_cons, List.length_append, List.length_nil] at hroom
  exact ⟨opening, inner, closing, depth - 1, rfl, by omega, hinner.lexemes, hinner.spelled,
    by omega⟩

end Fits

theorem nameTree_of_known (hkeyword : spelling ∉ keywords)
    (hspelling : spelling.dropWhile (· == '$') = bareName spelling)
    (hknown : bareName spelling ∈ scope.known) :
    nameTree scope spelling = .ok (.var (bareName spelling)) := by
  simp only [nameTree, keyword?_eq_none_iff.mpr hkeyword, hspelling, if_pos hknown]

theorem Derives.exists_cons {known : List Text} {t : Tree} (h : Derives known .comparison ts t) :
    ∃ first more, ts = first :: more ∧ first ≠ .not := by
  have operand : ∀ {ts t}, Derives known .operand ts t →
      ∃ first more, ts = first :: more ∧ first ≠ .not := by
    intro ts t h
    cases h <;> exact ⟨_, _, rfl, by simp⟩
  cases h with
  | alone h => exact operand h
  | compare op left right =>
    obtain ⟨first, more, rfl, hfirst⟩ := operand left
    exact ⟨first, _, rfl, hfirst⟩

theorem comparison_of_noComparison {tokens rest : List Token} {t : Tree}
    (h : item tokens = .ok (t, rest)) (hrest : NoComparison rest) :
    comparison item tokens = .ok (t, rest) := by
  rw [comparison, h]
  split
  · rename_i heq
    cases heq
  · rename_i heq
    cases heq
    exact absurd rfl (hrest _ _ rfl)
  · rename_i heq
    exact heq.symm

theorem comparison_of_sign {tokens after rest : List Token} {op : Comparison} {offset : Nat}
    {l r : Tree} (hleft : item tokens = .ok (l, ⟨.comparison op, offset⟩ :: after))
    (hright : item after = .ok (r, rest)) :
    comparison item tokens = .ok (.compare op l r, rest) := by
  simp only [comparison, hleft, hright, Except.map]

theorem negation_of_sign {tokens rest : List Token} {t : Tree} (offset : Nat)
    (h : negation item tokens = .ok (t, rest)) :
    negation item (⟨.not, offset⟩ :: tokens) = .ok (.not t, rest) := by
  simp only [negation, h, Except.map]

theorem negation_of_ne {token : Token} {rest : List Token} (h : token.lexeme ≠ .not) :
    negation item (token :: rest) = item (token :: rest) := by
  rw [negation]
  rintro offset more ⟨rfl, rfl⟩
  exact h rfl

/-- **Completeness.** What is derived is found, once there is room for its parentheses. -/
theorem Derives.found {part : Part} {t : Tree} (h : Derives scope.known part ts t)
    {used : List Token} {depth : Nat} (hfits : Fits depth used ts) :
    Found scope depth used t part := by
  induction h generalizing used depth with
  | whole | float | text | yes | no | null =>
    obtain ⟨offset, rfl⟩ := hfits.single
    exact fun rest ↦ rfl
  | name hkeyword hknown =>
    obtain ⟨offset, rfl⟩ := hfits.single
    have hspelling := hfits.spelled _ (List.mem_singleton_self _) _ rfl
    intro rest
    exact congrArg (Except.map (·, rest)) (nameTree_of_known hkeyword hspelling hknown)
  | @parentheses _ t _ ih =>
    obtain ⟨opening, inner, closing, deeper, rfl, rfl, hinner⟩ := hfits.inside
    intro rest
    -- The closing parenthesis ends the chains of the disjunction inside.
    have hdisjunction : disjunction scope (deeper + 1) (inner ++ ⟨.closing, closing⟩ :: rest) =
        .ok (t, ⟨.closing, closing⟩ :: rest) := by
      refine (ih hinner _ (noComparison_cons (by simp)) (notNext_cons (by simp))).trans ?_
      exact chainRest_of_notNext (notNext_cons (by simp))
    rw [List.cons_append, List.append_assoc, List.singleton_append]
    change operand scope (disjunction scope (deeper + 1)) (⟨.opening, opening⟩ :: _) = _
    rw [operand, hdisjunction]
  | alone operand ih =>
    intro rest hrest
    exact comparison_of_noComparison (ih hfits rest) hrest
  | compare op _ _ ihLeft ihRight =>
    obtain ⟨left, offset, right, rfl, hleft, hright⟩ := hfits.split
    intro rest _
    rw [List.append_assoc, List.cons_append]
    exact comparison_of_sign (ihLeft hleft _) (ihRight hright rest)
  | plain comparison ih =>
    obtain ⟨first, more, rfl, hfirst⟩ := comparison.exists_cons
    obtain ⟨offset, others, rfl, -⟩ := hfits.cons
    intro rest hrest
    exact (negation_of_ne hfirst).trans (ih hfits rest hrest)
  | not negated ih =>
    obtain ⟨offset, others, rfl, hothers⟩ := hfits.cons
    intro rest hrest
    exact negation_of_sign offset (ih hothers rest hrest)
  | firstNegation first ih =>
    intro rest hrest
    exact chain_of_item (ih hfits rest hrest)
  | and _ _ ihLeft ihRight =>
    obtain ⟨left, offset, right, rfl, hleft, hright⟩ := hfits.split
    intro rest hrest
    rw [List.append_assoc, List.cons_append, ihLeft hleft _ (noComparison_cons (by simp))]
    exact chainRest_sign (negation_sound scope depth) rfl (ihRight hright rest hrest)
  | firstConjunction first ih =>
    intro rest hrest hand
    exact chain_of_item ((ih hfits rest hrest).trans (chainRest_of_notNext hand))
  | or _ _ ihLeft ihRight =>
    obtain ⟨left, offset, right, rfl, hleft, hright⟩ := hfits.split
    intro rest hrest hand
    -- The right side is a chain itself, and stops because no conjunction sign follows.
    have hitem := (ihRight hright rest hrest).trans (chainRest_of_notNext hand)
    rw [List.append_assoc, List.cons_append,
      ihLeft hleft _ (noComparison_cons (by simp)) (notNext_cons (by simp))]
    exact chainRest_sign (conjunction_sound scope depth) rfl hitem

/-- Tokens are read to a tree exactly when they derive it. -/
theorem ofTokens_eq_ok_iff {tokens : List Token} (hspelled : Spelled tokens) {t : Tree} :
    ofTokens scope tokens = .ok t ↔
      Derives scope.known .disjunction (tokens.map Token.lexeme) t := by
  constructor
  · intro h
    rw [ofTokens] at h
    split_ifs at h with hempty
    split at h
    · cases h
    · rename_i tree htree
      obtain rfl := Except.ok.inj h
      obtain ⟨used, hused, hderives⟩ := (disjunction_sound scope _).ok htree
      rw [List.append_nil] at hused
      exact hused ▸ hderives (hused ▸ hspelled)
    · cases h
  · intro h
    obtain ⟨token, rest, rfl⟩ : ∃ token rest, tokens = token :: rest :=
      List.exists_cons_of_ne_nil fun hnil ↦ h.ne_nil (by rw [hnil, List.map_nil])
    have hfound := h.found ⟨rfl, hspelled, le_rfl⟩ [] (fun op ↦ notNext_nil) notNext_nil
    rw [List.append_nil] at hfound
    have hread : disjunction scope (token :: rest).length (token :: rest) = .ok (t, []) := hfound
    rw [ofTokens, hread]
    rfl

theorem blames_of_ofTokens_eq_error {tokens : List Token} (h : ofTokens scope tokens = .error e) :
    Blames scope.known tokens e := by
  rw [ofTokens] at h
  split_ifs at h with hempty
  · exact Except.error.inj h ▸ trivial
  · split at h
    · rename_i herror
      exact Except.error.inj h ▸ (disjunction_sound scope _).error herror
    · cases h
    · exact Except.error.inj h ▸ trivial

/-! ## What the scanner finds -/

/-- Whether a text begins with a lexeme and goes on with the rest, as far as names are concerned:
these stand in the text as they are spelled. -/
def Begins (t : Text) (lexeme : Lexeme) (rest : Text) : Prop :=
  rest <:+ t ∧ ∀ spelling, lexeme = .name spelling →
    spelling <+: t ∧ spelling.dropWhile (· == '$') = bareName spelling

theorem Begins.of_ne {rest : Text} {lexeme : Lexeme} (hrest : rest <:+ t)
    (hname : ∀ spelling, lexeme ≠ .name spelling) : Begins t lexeme rest :=
  ⟨hrest, fun spelling h ↦ absurd h (hname spelling)⟩

theorem quotedRest_suffix {quote : Char} {inside after : Text}
    (h : quotedRest quote t = some (inside, after)) : after <:+ t := by
  fun_induction quotedRest quote t generalizing inside after with
  | case1 | case3 | case5 => cases h
  | case2 =>
    cases h
    exact List.nil_suffix
  | case4 =>
    cases h
    exact List.suffix_cons _ _
  | case6 d rest hfeed hquote ih =>
    obtain ⟨⟨more, after⟩, hmore, hpair⟩ := Option.map_eq_some_iff.mp h
    cases hpair
    exact (ih hmore).trans ((List.suffix_cons _ _).trans (List.suffix_cons _ _))
  | case7 c d rest hquote hescape ih =>
    obtain ⟨⟨more, after⟩, hmore, hpair⟩ := Option.map_eq_some_iff.mp h
    cases hpair
    exact (ih hmore).trans (List.suffix_cons _ _)

theorem number_begins {rest : Text} {lexeme : Lexeme} (h : number t = .ok (lexeme, rest)) :
    Begins t lexeme rest := by
  rw [number] at h
  dsimp only at h
  split_ifs at h
  · cases h
    exact .of_ne (List.dropWhile_suffix _) (by simp)
  · cases h
    exact .of_ne ((List.drop_suffix _ _).trans (List.dropWhile_suffix _)) (by simp)

theorem number_eq_error (h : number t = .error e) :
    ∃ refusal, e = .numeral refusal ∧ Numeral.maxDigits < refusal.digits := by
  rw [number] at h
  dsimp only at h
  split_ifs at h with hfraction hlong
  cases h
  exact ⟨_, rfl, hlong⟩

theorem operator?_begins {rest : Text} {lexeme : Lexeme} (h : operator? t = some (lexeme, rest)) :
    Begins t lexeme rest := by
  obtain ⟨⟨symbol, found⟩, hmem, hfound⟩ := List.exists_of_findSome?_eq_some h
  obtain ⟨after, hafter, hpair⟩ := Option.map_eq_some_iff.mp hfound
  cases hpair
  have hnames : ∀ entry ∈ operators, ∀ spelling, entry.2 ≠ .name spelling := by
    simp [operators]
  refine .of_ne ?_ (hnames _ hmem)
  rw [Text.after?_eq_some_iff.mp hafter]
  exact List.suffix_append _ _

theorem ne_dollar_of_beginsName {c : Char} (h : beginsName c) : c ≠ '$' := by
  rintro rfl
  revert h
  decide

theorem name?_begins {rest : Text} {lexeme : Lexeme} (h : name? t = some (lexeme, rest)) :
    Begins t lexeme rest := by
  unfold name? at h
  split at h
  · rename_i c more
    split_ifs at h with hbegins
    cases h
    refine ⟨⟨'$' :: c :: more.takeWhile isWord, by simp⟩, ?_⟩
    rintro spelling ⟨⟩
    refine ⟨⟨more.dropWhile isWord, by simp⟩, ?_⟩
    simp [bareName, ne_dollar_of_beginsName hbegins]
  · rename_i c more hdollar
    split_ifs at h with hbegins
    cases h
    have hne := ne_dollar_of_beginsName hbegins
    refine ⟨⟨c :: more.takeWhile isWord, by simp⟩, ?_⟩
    rintro spelling ⟨⟩
    refine ⟨⟨more.dropWhile isWord, by simp⟩, ?_⟩
    simp [bareName, hne]
  · cases h

theorem lexeme?_begins {rest : Text} {lexeme : Lexeme} (h : lexeme? t = .ok (some (lexeme, rest))) :
    Begins t lexeme rest := by
  unfold lexeme? at h
  split at h
  · cases h
  · rename_i c more
    split_ifs at h with hdigit hquote
    · obtain ⟨found, hnumber, hfound⟩ := exists_of_map_eq_ok h
      cases hfound
      exact number_begins hnumber
    · obtain ⟨⟨inside, after⟩, hquoted, hpair⟩ := Option.map_eq_some_iff.mp (Except.ok.inj h)
      cases hpair
      exact .of_ne ((quotedRest_suffix hquoted).trans (List.suffix_cons _ _)) (by simp)
    · split at h
      · rename_i found hname
        cases h
        exact name?_begins hname
      · exact operator?_begins (Except.ok.inj h)

theorem lexeme?_eq_error (h : lexeme? t = .error e) :
    ∃ refusal, e = .numeral refusal ∧ Numeral.maxDigits < refusal.digits := by
  unfold lexeme? at h
  split at h
  · cases h
  · split_ifs at h
    · exact number_eq_error (eq_error_of_map_eq_error h)
    · split at h <;> cases h

/-- The scanner fails at a character that begins no token, or refuses a numeral. -/
theorem scanFrom_eq_error {offset : Nat} (h : scanFrom offset t = .error e) :
    (∃ fault place, e = .malformed fault place) ∨
      ∃ refusal, e = .numeral refusal ∧ Numeral.maxDigits < refusal.digits := by
  fun_induction scanFrom offset t with
  | case1 => cases h
  | case2 offset c cs hblank ih => exact ih h
  | case3 offset c cs hblank other hlexeme =>
    cases h
    exact .inr (lexeme?_eq_error hlexeme)
  | case4 offset c cs hblank hlexeme =>
    cases h
    exact .inl ⟨_, _, rfl⟩
  | case5 offset c cs hblank lexeme rest hlexeme hshort other hrest ih =>
    cases h
    exact ih hrest
  | case6 => cases h
  | case7 =>
    cases h
    exact .inl ⟨_, _, rfl⟩

/-- The names among the tokens are well spelled, and stand in the text where the tokens say. -/
theorem scanFrom_names {offset : Nat} {tokens : List Token} (h : scanFrom offset t = .ok tokens)
    {token : Token} (hmem : token ∈ tokens) (hname : token.lexeme = .name spelling) :
    spelling.dropWhile (· == '$') = bareName spelling ∧
      ∃ k, token.offset = offset + k ∧ spelling <+: t.drop k := by
  fun_induction scanFrom offset t generalizing tokens with
  | case1 =>
    cases h
    cases hmem
  | case2 offset c cs hblank ih =>
    obtain ⟨hspelled, k, hoffset, hstands⟩ := ih h hmem
    exact ⟨hspelled, k + 1, by omega, hstands⟩
  | case3 | case4 | case5 | case7 => cases h
  | case6 offset c cs hblank lexeme rest hlexeme hshort more hrest ih =>
    cases h
    obtain ⟨hsuffix, hbegins⟩ := lexeme?_begins hlexeme
    rcases List.mem_cons.mp hmem with rfl | hmem
    · obtain ⟨hstands, hspelled⟩ := hbegins spelling hname
      exact ⟨hspelled, 0, rfl, hstands⟩
    · obtain ⟨hspelled, k, hoffset, hstands⟩ := ih hrest hmem
      refine ⟨hspelled, (c :: cs).length - rest.length + k, by omega, ?_⟩
      rw [← List.drop_drop, ← List.suffix_iff_eq_drop.mp hsuffix]
      exact hstands

theorem spelled_of_scanFrom {offset : Nat} {tokens : List Token}
    (h : scanFrom offset t = .ok tokens) : Spelled tokens :=
  fun _ hmem _ hname ↦ (scanFrom_names h hmem hname).1

/-- **A condition that can be scanned is read to a tree exactly when its lexemes derive that tree,
and no row of lexemes derives two.** Any other condition is malformed, or uses a name that stands in
it and is not known; a numeral that is too long is refused before there are tokens. -/
theorem parse_eq_ok_iff_derives (condition : Text) (known : List Text) :
    (∀ tokens, scan condition = .ok tokens →
      (∀ t, parse condition known = .ok t ↔
        Derives known .disjunction (tokens.map Token.lexeme) t) ∧
      ∀ t u, Derives known .disjunction (tokens.map Token.lexeme) t →
        Derives known .disjunction (tokens.map Token.lexeme) u → t = u) ∧
    ∀ e, parse condition known = .error e →
      (∃ fault offset, e = .malformed fault offset) ∨
      (∃ tokens spelling offset, scan condition = .ok tokens ∧ ⟨.name spelling, offset⟩ ∈ tokens ∧
        spelling <+: condition.drop offset ∧ bareName spelling ∉ known ∧
        e = .unknown (bareName spelling)) ∨
      ∃ refusal, e = .numeral refusal ∧ scan condition = .error e ∧
        Numeral.maxDigits < refusal.digits := by
  have hspelled : ∀ tokens, scan condition = .ok tokens → Spelled tokens :=
    fun tokens hscan token hmem spelling hname ↦ (scanFrom_names hscan hmem hname).1
  refine ⟨fun tokens hscan ↦ ?_, fun e herror ↦ ?_⟩
  · have hiff : ∀ t, parse condition known = .ok t ↔
        Derives known .disjunction (tokens.map Token.lexeme) t := by
      intro t
      rw [parse, hscan]
      exact ofTokens_eq_ok_iff (hspelled tokens hscan)
    refine ⟨hiff, fun t u ht hu ↦ ?_⟩
    exact Except.ok.inj (((hiff t).mpr ht).symm.trans ((hiff u).mpr hu))
  · cases hscan : scan condition with
    | error other =>
      obtain rfl : other = e := by simpa [parse, hscan] using herror
      rcases scanFrom_eq_error hscan with hmalformed | ⟨refusal, hrefusal, hlong⟩
      · exact .inl hmalformed
      · exact .inr (.inr ⟨refusal, hrefusal, rfl, hlong⟩)
    | ok tokens =>
      have hblames : Blames known tokens e := by
        rw [parse, hscan] at herror
        exact blames_of_ofTokens_eq_error herror
      cases e with
      | malformed fault offset => exact .inl ⟨fault, offset, rfl⟩
      | numeral refusal => exact hblames.elim
      | unknown name =>
        obtain ⟨⟨lexeme, offset⟩, hmem, spelling, rfl, rfl, hunknown⟩ := hblames
        obtain ⟨hbare, k, hoffset, hstands⟩ := scanFrom_names hscan hmem rfl
        obtain rfl : offset = k := by simpa using hoffset
        rw [hbare] at hunknown ⊢
        exact .inr (.inl ⟨tokens, spelling, offset, rfl, hmem, hstands, hunknown, rfl⟩)

end Condition

end PageCompiler
