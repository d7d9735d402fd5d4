import PageCompiler.Proofs.References

/-!
# Scripts whose references were replaced

What replacing references leaves has no references, so that replacing them once more changes
nothing.

## Two runs in step

The second run walks over what the first one wrote. Where the first run took text, the second takes
the same text and comes out with the same frames and the same flag, although what follows has
changed meanwhile: a step looks ahead by a name and one character at most, and there the two scripts
do not differ in anything that matters (`takesAgain`). Where the first run took a declared name,
the second finds the name, a point and a word, of which no character begins anything
(`lexFrom_quiet`). So the runs stay together, by induction along the first one.
-/

namespace PageCompiler

namespace Script

/-- The rest of a script with its references replaced. -/
def rewrittenFrom (names : List Text) (frames : List Frame) (blocked : Bool) (script : Text) :
    Text :=
  (lexFrom frames blocked script).flatMap (Lexeme.dereferenced names)

section Steps

variable {names : List Text} {frames after : List Frame} {blocked flag : Bool} {c : Char}
  {cs rest : Text} {lexeme : Lexeme}

theorem lexFrom_of_next (h : next frames blocked c cs = (lexeme, after, flag, rest)) :
    lexFrom frames blocked (c :: cs) = lexeme :: lexFrom after flag rest := by
  rw [lexFrom, h]

theorem rewrittenFrom_of_next (h : next frames blocked c cs = (lexeme, after, flag, rest)) :
    rewrittenFrom names frames blocked (c :: cs) =
      lexeme.dereferenced names ++ rewrittenFrom names after flag rest := by
  rw [rewrittenFrom, lexFrom_of_next h, List.flatMap_cons]
  rfl

@[simp] theorem rewrittenFrom_nil : rewrittenFrom names frames blocked [] = [] := by
  rw [rewrittenFrom, lexFrom, List.flatMap_nil]

end Steps

/-! ## Characters that begin nothing -/

/-- Whether a character is taken for itself in code, and blocks: one of a name, or a point. -/
def IsQuiet (c : Char) : Prop := isWord c = true ∨ c = '.'

theorem IsQuiet.blocks {c : Char} (h : IsQuiet c) : Script.blocks c = true := by
  rcases h with hword | rfl
  · simp [Script.blocks, hword]
  · decide

theorem IsQuiet.ne {c : Char} (h : IsQuiet c) (d : Char) (hword : isWord d = false)
    (hpoint : d ≠ '.') : c ≠ d := by
  rintro rfl
  rcases h with h | h
  · exact Bool.false_ne_true (hword.symm.trans h)
  · exact hpoint h

theorem IsQuiet.isPlain {c : Char} (h : IsQuiet c) (nested : Bool) : IsPlain nested c :=
  ⟨h.ne _ (by decide) (by decide), h.ne _ (by decide) (by decide), h.ne _ (by decide) (by decide),
    fun _ ↦ ⟨h.ne _ (by decide) (by decide), h.ne _ (by decide) (by decide)⟩⟩

theorem IsQuiet.next {frames : List Frame} (hcode : InCode frames) {c : Char} (h : IsQuiet c)
    (blocked : Bool) (cs : Text) :
    Script.next frames blocked c cs = (.text [c], frames, true, cs) := by
  have hslash : c ≠ '/' := h.ne _ (by decide) (by decide)
  have hdollar : c ≠ '$' := h.ne _ (by decide) (by decide)
  rw [next_plain hcode (h.isPlain _) (fun heq ↦ absurd heq hslash) (fun heq ↦ absurd heq hdollar),
    h.blocks]

/-- Characters that begin nothing are taken one by one, and the last of them blocks. -/
theorem lexFrom_quiet {frames : List Frame} (hcode : InCode frames) {w : Text} (hne : w ≠ [])
    (hquiet : ∀ c ∈ w, IsQuiet c) (blocked : Bool) (rest : Text) :
    lexFrom frames blocked (w ++ rest) =
      w.map (fun c ↦ .text [c]) ++ lexFrom frames true rest := by
  induction w generalizing blocked with
  | nil => exact absurd rfl hne
  | cons c w ih =>
    rw [List.cons_append, lexFrom_of_next ((hquiet c List.mem_cons_self).next hcode blocked _)]
    cases w with
    | nil => rfl
    | cons d w =>
      rw [ih (List.cons_ne_nil d w) (fun e he ↦ hquiet e (List.mem_cons_of_mem c he))]
      rfl

theorem rewrittenFrom_quiet {names : List Text} {frames : List Frame} (hcode : InCode frames)
    {w : Text} (hne : w ≠ []) (hquiet : ∀ c ∈ w, IsQuiet c) (blocked : Bool) (rest : Text) :
    rewrittenFrom names frames blocked (w ++ rest) =
      w ++ rewrittenFrom names frames true rest := by
  rw [rewrittenFrom, lexFrom_quiet hcode hne hquiet, List.flatMap_append, List.flatMap_map]
  simp [Lexeme.dereferenced, rewrittenFrom]

theorem isQuiet_value : ∀ c ∈ (".value" : Text), IsQuiet c := by
  simp only [IsQuiet]
  decide +kernel

theorem IsIdentifier.isQuiet {n : Text} (h : IsIdentifier n) : ∀ c ∈ n, IsQuiet c :=
  fun c hc ↦ .inl (h.isWord c hc)

/-! ## Looking ahead -/

section Ahead

variable {names : List Text} {frames : List Frame} {blocked : Bool} {script : Text}

/-- What replacing does to the first character: nothing, unless a reference stands there, and then
the name comes first. -/
theorem head?_rewrittenFrom (names : List Text) (frames : List Frame) (blocked : Bool)
    (script : Text) :
    (rewrittenFrom names frames blocked script).head? = script.head? ∨
      (InCode frames ∧ blocked = false ∧ script.head? = some '$' ∧
        ∃ c, (rewrittenFrom names frames blocked script).head? = some c ∧ isWord c = true) := by
  cases script with
  | nil => simp
  | cons c cs =>
    rcases next_cases frames blocked c cs with ⟨t, after, rest, hnext, -⟩ | ⟨after, hnext, -⟩ |
      ⟨name, rest, rfl, hcode, hread, hnext, -⟩
    · left
      rw [rewrittenFrom_of_next hnext]
      rfl
    · left
      rw [rewrittenFrom_of_next hnext]
      rfl
    · obtain ⟨hblocked, -, hname, -⟩ := reference?_eq_some_iff.mp hread
      rw [rewrittenFrom_of_next hnext, Lexeme.dereferenced]
      split_ifs with hdeclared
      · obtain ⟨d, ds, rfl⟩ := List.exists_cons_of_ne_nil hname.ne_nil
        exact .inr ⟨hcode, hblocked, rfl, d, rfl, hname.isWord d List.mem_cons_self⟩
      · exact .inl rfl

theorem head?_rewrittenFrom_blocked :
    (rewrittenFrom names frames true script).head? = script.head? := by
  rcases head?_rewrittenFrom names frames true script with h | ⟨-, hblocked, -⟩
  · exact h
  · exact absurd hblocked (by decide)

theorem head?_rewrittenFrom_literal {outer : List Frame} :
    (rewrittenFrom names (.literal :: outer) blocked script).head? = script.head? := by
  rcases head?_rewrittenFrom names (.literal :: outer) blocked script with h | ⟨hcode, -⟩
  · exact h
  · exact absurd rfl hcode

theorem head?_rewrittenFrom_of_ne (h : script.head? ≠ some '$') :
    (rewrittenFrom names frames blocked script).head? = script.head? := by
  rcases head?_rewrittenFrom names frames blocked script with hsame | ⟨-, -, hdollar, -⟩
  · exact hsame
  · exact absurd hdollar h

theorem noRemark_rewrittenFrom {c : Char} (h : NoRemark c script) :
    NoRemark c (rewrittenFrom names frames blocked script) := by
  intro hslash d hd
  rcases head?_rewrittenFrom names frames blocked script with hsame | ⟨-, -, -, e, he, hword⟩
  · exact h hslash d (hsame ▸ hd)
  · obtain rfl : e = d := Option.some.inj (he.symm.trans hd)
    constructor
    · rintro rfl
      exact absurd hword (by decide)
    · rintro rfl
      exact absurd hword (by decide)

theorem reference?_rewrittenFrom_eq_none (hcode : InCode frames)
    (h : reference? blocked script = none) :
    reference? blocked (rewrittenFrom names frames true script) = none := by
  cases blocked with
  | true => exact reference?_blocked _
  | false =>
    rw [Option.eq_none_iff_forall_ne_some]
    rintro ⟨name, rest⟩ hread
    obtain ⟨-, hsplit, hname, hrest⟩ := reference?_eq_some_iff.mp hread
    rcases nameAt_spec script with hnil | ⟨more, hmore, hat, hstop⟩
    · -- No name begins here, and the first character is still the same.
      obtain ⟨c, w, rfl, hfirst, -⟩ := hname
      have hhead : script.head? = some c := by
        have hsame := @head?_rewrittenFrom_blocked names frames script
        rw [← hsame, hsplit]
        rfl
      obtain ⟨cs, rfl⟩ := List.head?_eq_some_iff.mp hhead
      rw [nameAt, if_pos (by simpa using hfirst)] at hnil
      cases hnil
    · -- A name begins here and a point follows it, and both are still there.
      have hpoint : more.head? = some '.' := by
        by_contra hpoint
        have hstands : reference? false script = some (nameAt script, more) := by
          refine reference?_eq_some_iff.mpr ⟨rfl, hmore, hat, fun d hd ↦ ⟨hstop d hd, ?_⟩⟩
          rintro rfl
          exact hpoint hd
        rw [hstands] at h
        cases h
      rw [hmore, rewrittenFrom_quiet hcode hat.ne_nil hat.isQuiet] at hsplit
      have hafter : (rewrittenFrom names frames true more).head? = some '.' := by
        rw [head?_rewrittenFrom_blocked, hpoint]
      have hstop' : ∀ d ∈ (rewrittenFrom names frames true more).head?, isWord d = false := by
        rw [hafter]
        rintro d hd
        obtain rfl := Option.some.inj hd
        decide
      have hsame : name = nameAt script := by
        rw [← nameAt_append hname fun d hd ↦ (hrest d hd).1, ← hsplit, nameAt_append hat hstop']
      rw [← hsame, List.append_cancel_left_eq] at hsplit
      exact (hrest '.' (hsplit ▸ hafter)).2 rfl

end Ahead

/-! ## One step -/

section Steps

variable {names : List Text} {frames after outer : List Frame} {blocked flag : Bool} {c : Char}
  {t cs rest : Text}

/-- Whether a step over text is taken again in front of what replacing makes of the rest. -/
def TakesAgain (names : List Text) (frames : List Frame) (blocked : Bool) (c : Char) (t : Text)
    (after : List Frame) (flag : Bool) (rest : Text) : Prop :=
  next frames blocked c (t ++ rewrittenFrom names after flag rest) =
    (.text (c :: t), after, flag, rewrittenFrom names after flag rest)

theorem takesAgain_literal
    (h : next (.literal :: outer) blocked c cs = (.text (c :: t), after, flag, rest)) :
    TakesAgain names (.literal :: outer) blocked c t after flag rest := by
  rcases literal_cases c cs with rfl | rfl | ⟨inside, rfl, rfl⟩ | ⟨hescape, hclose, hhole⟩
  · cases cs with
    | nil =>
      cases h
      rw [TakesAgain, List.drop_nil, rewrittenFrom_nil]
      rfl
    | cons d cs =>
      cases h
      rfl
  · cases h
    rfl
  · cases h
    rfl
  · rw [next_literal_char hescape hclose hhole] at h
    cases h
    refine next_literal_char hescape hclose fun hdollar ↦ ?_
    rw [List.nil_append, head?_rewrittenFrom_literal]
    exact hhole hdollar

theorem takesAgain_quote (hcode : InCode frames) (hquote : c = '\'' ∨ c = '"')
    (h : next frames blocked c cs = (.text (c :: t), after, flag, rest)) :
    TakesAgain names frames blocked c t after flag rest := by
  have hescape : c ≠ '\\' := by rcases hquote with rfl | rfl <;> decide
  rw [next_quote hcode hquote] at h
  rw [TakesAgain, next_quote hcode hquote]
  rcases exists_stringTail c cs with tail | ⟨s, more, rfl, tail⟩
  · have hread := stringRest_append tail hescape (fun _ ↦ rfl)
    rw [List.append_nil] at hread
    rw [hread] at h
    cases h
    rw [rewrittenFrom_nil, List.append_nil, hread]
  · rw [stringRest_append tail hescape fun heq ↦ absurd heq (by decide)] at h
    cases h
    rw [stringRest_append tail hescape fun heq ↦ absurd heq (by decide)]

theorem takesAgain_lineRemark (hcode : InCode frames)
    (h : next frames blocked '/' ('/' :: cs) = (.text ('/' :: t), after, flag, rest)) :
    TakesAgain names frames blocked '/' t after flag rest := by
  rw [next_lineRemark hcode] at h
  cases h
  -- The remark ends at a line feed or with the script, and neither is changed.
  have hstop : ∀ d, (rewrittenFrom names frames false (cs.dropWhile (· != '\n'))).head? = some d →
      (d != '\n') = false := by
    have hnot := List.head?_dropWhile_not (· != '\n') cs
    intro d hd
    rw [head?_rewrittenFrom_of_ne] at hd
    · rw [hd] at hnot
      exact hnot
    · intro hdollar
      rw [hdollar] at hnot
      exact absurd hnot (by decide)
  have hinside : ∀ d ∈ cs.takeWhile (· != '\n'), (d != '\n') = true := by
    intro d hd
    simpa using List.mem_takeWhile_imp (p := (· != '\n')) hd
  rw [TakesAgain, List.cons_append, next_lineRemark hcode,
    Text.takeWhile_append_of_stop hinside hstop, Text.dropWhile_append_of_stop hinside hstop]

theorem takesAgain_remark (hcode : InCode frames)
    (h : next frames blocked '/' ('*' :: cs) = (.text ('/' :: t), after, flag, rest)) :
    TakesAgain names frames blocked '/' t after flag rest := by
  rw [next_remark hcode] at h
  rcases exists_remark cs with hopen | ⟨inside, more, rfl, hinside⟩
  · rw [remarkRest_of_open hopen] at h
    cases h
    rw [TakesAgain, rewrittenFrom_nil, List.append_nil, next_remark hcode,
      remarkRest_of_open hopen]
  · rw [remarkRest_append hinside] at h
    cases h
    rw [TakesAgain, List.cons_append, next_remark hcode, remarkRest_append hinside]

theorem takesAgain_plain (hcode : InCode frames) (hplain : IsPlain (!frames.isEmpty) c)
    (hremark : NoRemark c cs) (h : next frames blocked c cs = (.text (c :: t), after, flag, rest)) :
    TakesAgain names frames blocked c t after flag rest := by
  have hreference : c = '$' → reference? blocked cs = none := by
    rintro rfl
    cases hread : reference? blocked cs with
    | none => rfl
    | some found =>
      rw [next_of_inCode hcode, nextInCode_of_isPlain hplain hremark, if_pos rfl, hread] at h
      cases h
  rw [next_plain hcode hplain hremark hreference] at h
  cases h
  refine next_plain hcode hplain (noRemark_rewrittenFrom hremark) ?_
  rintro rfl
  exact reference?_rewrittenFrom_eq_none hcode (hreference rfl)

/-- **A step over text is taken again.** -/
theorem takesAgain (h : next frames blocked c cs = (.text (c :: t), after, flag, rest)) :
    TakesAgain names frames blocked c t after flag rest := by
  by_cases hcode : InCode frames
  · rcases code_cases (!frames.isEmpty) c cs with hquote | rfl | ⟨inside, rfl, rfl⟩ |
      ⟨inside, rfl, rfl⟩ | ⟨hnested, rfl⟩ | ⟨hnested, rfl⟩ | ⟨hplain, hremark⟩
    · exact takesAgain_quote hcode hquote h
    · rw [next_literal hcode] at h
      cases h
      exact next_literal hcode
    · exact takesAgain_lineRemark hcode h
    · exact takesAgain_remark hcode h
    · have hne : frames ≠ [] := by simpa using hnested
      rw [next_brace hcode hne] at h
      cases h
      exact next_brace hcode hne
    · have hne : frames ≠ [] := by simpa using hnested
      rw [next_unbrace hcode hne] at h
      cases h
      exact next_unbrace hcode hne
    · exact takesAgain_plain hcode hplain hremark h
  · obtain ⟨outer, rfl⟩ := List.head?_eq_some_iff.mp (not_not.mp hcode)
    exact takesAgain_literal h

/-- A reference whose name is not declared is taken again. -/
theorem next_reference_rewrittenFrom {name : Text} (hcode : InCode frames)
    (hread : reference? blocked cs = some (name, rest)) :
    next frames blocked '$' (name ++ rewrittenFrom names frames true rest) =
      (.reference name, frames, true, rewrittenFrom names frames true rest) := by
  obtain ⟨hblocked, -, hname, hrest⟩ := reference?_eq_some_iff.mp hread
  have hagain : reference? blocked (name ++ rewrittenFrom names frames true rest) =
      some (name, rewrittenFrom names frames true rest) := by
    refine reference?_eq_some_iff.mpr ⟨hblocked, rfl, hname, ?_⟩
    rw [head?_rewrittenFrom_blocked]
    exact hrest
  rw [next_of_inCode hcode, nextInCode_of_isPlain (by simp [IsPlain]) (by simp [NoRemark]),
    if_pos rfl, hagain]

end Steps

/-! ## A run -/

/-- The second run finds no declared name, by induction along the first. -/
theorem undeclared_of_reference_mem (names : List Text) (frames : List Frame) (blocked : Bool)
    (script : Text) {n : Text}
    (h : .reference n ∈ lexFrom frames blocked (rewrittenFrom names frames blocked script)) :
    n ∉ names := by
  fun_induction lexFrom frames blocked script with
  | case1 frames blocked =>
    rw [rewrittenFrom_nil, lexFrom] at h
    cases h
  | case2 frames blocked c cs step =>
    rename_i ih
    rcases next_cases frames blocked c cs with ⟨t, after, rest, hnext, -⟩ | ⟨after, hnext, -⟩ |
      ⟨name, rest, rfl, hcode, hread, hnext, -⟩
    · have hstep : step = (.text (c :: t), after, false, rest) := hnext
      rw [hstep] at ih
      rw [rewrittenFrom_of_next hnext, Lexeme.dereferenced, List.cons_append,
        lexFrom_of_next (takesAgain hnext)] at h
      exact ih ((List.mem_cons.mp h).resolve_left (by simp))
    · have hstep : step = (.text [c], after, blocks c, cs) := hnext
      rw [hstep] at ih
      rw [rewrittenFrom_of_next hnext, Lexeme.dereferenced, List.cons_append,
        lexFrom_of_next (takesAgain hnext)] at h
      exact ih ((List.mem_cons.mp h).resolve_left (by simp))
    · have hstep : step = (.reference name, frames, true, rest) := hnext
      rw [hstep] at ih
      rw [rewrittenFrom_of_next hnext, Lexeme.dereferenced] at h
      obtain ⟨-, -, hname, -⟩ := reference?_eq_some_iff.mp hread
      split_ifs at h with hdeclared
      · -- The name was replaced, and its characters are taken one by one.
        have hne : name ++ (".value" : Text) ≠ [] := by simp [hname.ne_nil]
        have hquiet : ∀ c ∈ name ++ (".value" : Text), IsQuiet c := by
          intro c hc
          rcases List.mem_append.mp hc with hc | hc
          · exact hname.isQuiet c hc
          · exact isQuiet_value c hc
        rw [lexFrom_quiet hcode hne hquiet] at h
        exact ih ((List.mem_append.mp h).resolve_left (by simp))
      · rw [List.cons_append, lexFrom_of_next (next_reference_rewrittenFrom hcode hread)] at h
        rcases List.mem_cons.mp h with heq | hmem
        · rwa [Lexeme.reference.inj heq]
        · exact ih hmem

/-- **Nothing is left to replace.** In a script whose references to the given names were replaced no
reference to one of them stands, and so replacing them again changes nothing. -/
theorem dereference_settles (names : List Text) (script : Text) :
    (∃ m, IsZoning (dereference names script) m ∧ ∀ i n, ¬ IsReference names none m i n) ∧
      dereference names (dereference names script) = dereference names script := by
  have hundeclared : ∀ l ∈ lex (dereference names script), ∀ n, l = .reference n → n ∉ names := by
    rintro l hl n rfl
    exact undeclared_of_reference_mem names [] false script hl
  constructor
  · refine ⟨marks [] (dereference names script), isZoning_iff.mpr rfl, fun i n hreference ↦ ?_⟩
    have hstart : Agrees [] false none (dereference names script) := fun _ _ ↦ rfl
    obtain ⟨before, after, hpieces, -⟩ := (hasReference_iff names hstart i n).mpr hreference
    have hmem : Lexeme.reference n ∈
        (lex (dereference names script)).map (Lexeme.settled names) := by
      rw [lex, hpieces]
      simp
    obtain ⟨l, hl, hsettled⟩ := List.mem_map.mp hmem
    cases l with
    | text t => cases hsettled
    | reference name =>
      rw [Lexeme.settled, if_neg (hundeclared _ hl name rfl)] at hsettled
      cases hsettled
  · calc dereference names (dereference names script)
        = (lex (dereference names script)).flatMap Lexeme.source := by
          refine List.flatMap_congr fun l hl ↦ ?_
          cases l with
          | text t => rfl
          | reference name => exact if_neg (hundeclared _ hl name rfl)
      _ = dereference names script := flatMap_source_lexFrom [] false _

end Script

end PageCompiler
