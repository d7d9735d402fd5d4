import Mathlib.Data.List.Basic
import PageCompiler.Proofs.ScriptZones

/-!
# Replacing references

What a reference is, said of one place in a script: a dollar sign in code with a declared name after
it, where neither the character before nor the one after makes the two part of something larger. The
generated program is the script with its references replaced and nothing else changed.

## One step, one run

The lexer decides by a flag instead of the character before the dollar sign, and it does not set the
flag for that character alone: after a string or a remark it is down whatever these end with. So the
flag and the character have to agree only where it matters, before a dollar sign in code, and that
is the invariant of a run (`Agrees`). What one step takes is said once, in `next_cases`; that the
texts of the lexemes make up the script, and that references are found exactly where they stand, are
inductions over it.
-/

namespace PageCompiler

variable {n t : Text} {i : Nat} {c : Char}

namespace Script

/-! ## References in a script -/

/-- Whether a text is a name: a Latin letter or underscore, and any word characters after it. -/
def IsIdentifier (n : Text) : Prop :=
  ∃ c w, n = c :: w ∧ (isLatinLetter c = true ∨ c = '_') ∧ ∀ d ∈ w, isWord d = true

/-- Whether a marked text begins with a reference to one of the names, where `before` is the
character before it. The name is as long as can be, since no word character follows it. -/
structure Stands (names : List Text) (before : Option Char) (m : Marked) (n : Text) : Prop where
  /-- The name is declared. -/
  declared : n ∈ names
  /-- The character before does not block. -/
  apart : ∀ c ∈ before, isWord c = false ∧ c ≠ '$' ∧ c ≠ '.'
  /-- A dollar sign and the name are there, and neither the name nor a point goes on. -/
  spelled : ∃ (more : Marked) (rest : Text), m = ('$', .code) :: more ∧ more.text = n ++ rest ∧
    IsIdentifier n ∧ ∀ d ∈ rest.head?, isWord d = false ∧ d ≠ '.'

/-- Whether there is a reference at an offset of a marked text that has `before` before it. -/
def IsReference (names : List Text) (before : Option Char) (m : Marked) (i : Nat) (n : Text) :
    Prop :=
  Stands names ((m.text.take i).getLast?.or before) (m.drop i) n

variable {m : Marked}

theorem isReference_append {names : List Text} {before : Option Char} {front : Marked} {j : Nat} :
    IsReference names before (front ++ m) (front.length + j) n ↔
      IsReference names (front.text.getLast?.or before) m j n := by
  have hlength : front.length = front.text.length := by simp [Marked.text]
  have htake : (front ++ m).text.take (front.length + j) = front.text ++ m.text.take j := by
    rw [Marked.text_append, hlength, List.take_length_add_append]
  rw [IsReference, IsReference, htake, List.drop_length_add_append, List.getLast?_append,
    Option.or_assoc]

theorem IsReference.dollar {names : List Text} {before : Option Char}
    (h : IsReference names before m i n) : m[i]? = some ('$', .code) := by
  obtain ⟨more, rest, hdrop, -⟩ := h.spelled
  rw [← List.head?_drop, hdrop, List.head?_cons]

/-! ## References among the pieces of a script -/

/-- A lexeme with its reference given up if the name is not declared. -/
def Lexeme.settled (names : List Text) : Lexeme → Lexeme
  | .text t => .text t
  | .reference name => if name ∈ names then .reference name else .text ('$' :: name)

def Lexeme.replaced : Lexeme → Text
  | .text t => t
  | .reference name => name ++ ".value"

/-- Whether one of the pieces is a reference and begins at an offset. -/
def HasReference (pieces : List Lexeme) (i : Nat) (n : Text) : Prop :=
  ∃ before after, pieces = before ++ .reference n :: after ∧
    (before.flatMap Lexeme.source).length = i

@[simp] theorem Lexeme.source_settled (names : List Text) (l : Lexeme) :
    (l.settled names).source = l.source := by
  cases l with
  | text t => rfl
  | reference name =>
    rw [Lexeme.settled]
    split_ifs <;> rfl

@[simp] theorem Lexeme.replaced_settled (names : List Text) (l : Lexeme) :
    (l.settled names).replaced = l.dereferenced names := by
  cases l with
  | text t => rfl
  | reference name =>
    rw [Lexeme.settled, Lexeme.dereferenced]
    split_ifs <;> rfl

@[simp] theorem not_hasReference_nil : ¬ HasReference [] i n := by
  rintro ⟨before, after, hnil, -⟩
  exact List.append_ne_nil_of_right_ne_nil _ (List.cons_ne_nil _ _) hnil.symm

theorem hasReference_cons {piece : Lexeme} {pieces : List Lexeme} :
    HasReference (piece :: pieces) i n ↔
      (piece = .reference n ∧ i = 0) ∨
        ∃ j, i = piece.source.length + j ∧ HasReference pieces j n := by
  constructor
  · rintro ⟨before, after, hsplit, rfl⟩
    cases before with
    | nil =>
      obtain ⟨rfl, rfl⟩ := List.cons.inj hsplit
      exact .inl ⟨rfl, rfl⟩
    | cons first before =>
      obtain ⟨rfl, rfl⟩ := List.cons.inj hsplit
      exact .inr ⟨_, by rw [List.flatMap_cons, List.length_append], before, after, rfl, rfl⟩
  · rintro (⟨rfl, rfl⟩ | ⟨j, rfl, before, after, rfl, rfl⟩)
    · exact ⟨[], pieces, rfl, rfl⟩
    · exact ⟨piece :: before, after, rfl, by rw [List.flatMap_cons, List.length_append]⟩

/-! ## Names -/

theorem toNat_of_isLatinLetter (h : isLatinLetter c = true) :
    97 ≤ c.toNat ∧ c.toNat ≤ 122 ∨ 65 ≤ c.toNat ∧ c.toNat ≤ 90 := by
  simpa [isLatinLetter, Char.le_def, UInt32.le_iff_toNat_le] using h

theorem isWord_of_isLatinLetter (h : isLatinLetter c = true) : isWord c = true := by
  have hcodes : ∀ n : Fin 123, 97 ≤ n.val ∨ 65 ≤ n.val ∧ n.val ≤ 90 →
      wordRanges.containsCode n.val = true := by decide +kernel
  have hletter := toNat_of_isLatinLetter h
  exact hcodes ⟨c.toNat, by omega⟩ (by dsimp only; omega)

theorem IsIdentifier.isWord (h : IsIdentifier n) : ∀ d ∈ n, isWord d = true := by
  obtain ⟨c, w, rfl, hfirst, hword⟩ := h
  intro d hd
  rcases List.mem_cons.mp hd with rfl | hd
  · rcases hfirst with hletter | rfl
    · exact isWord_of_isLatinLetter hletter
    · decide
  · exact hword d hd

theorem IsIdentifier.ne_nil (h : IsIdentifier n) : n ≠ [] := by
  obtain ⟨c, w, rfl, -⟩ := h
  exact List.cons_ne_nil c w

theorem nameAt_append {rest : Text} (h : IsIdentifier n)
    (hrest : ∀ d ∈ rest.head?, isWord d = false) : nameAt (n ++ rest) = n := by
  obtain ⟨c, w, rfl, hfirst, hword⟩ := h
  rw [List.cons_append, nameAt, if_pos (by simpa using hfirst),
    Text.takeWhile_append_of_stop hword hrest]

theorem nameAt_spec (t : Text) : nameAt t = [] ∨
    ∃ rest, t = nameAt t ++ rest ∧ IsIdentifier (nameAt t) ∧
      ∀ d ∈ rest.head?, isWord d = false := by
  cases t with
  | nil => exact .inl rfl
  | cons c cs =>
    rw [nameAt]
    split_ifs with hfirst
    · refine .inr ⟨cs.dropWhile isWord, by simp, ⟨c, _, rfl, by simpa using hfirst, ?_⟩, ?_⟩
      · exact fun d hd ↦ List.mem_takeWhile_imp hd
      · intro d hd
        have hnot := List.head?_dropWhile_not isWord cs
        rw [hd] at hnot
        exact hnot
    · exact .inl rfl

/-- What is taken for a reference after a dollar sign. -/
theorem reference?_eq_some_iff {blocked : Bool} {rest : Text} :
    reference? blocked t = some (n, rest) ↔
      blocked = false ∧ t = n ++ rest ∧ IsIdentifier n ∧
        ∀ d ∈ rest.head?, isWord d = false ∧ d ≠ '.' := by
  constructor
  · intro h
    rw [reference?] at h
    split_ifs at h with hstands
    obtain ⟨rfl, rfl⟩ := Prod.mk.inj (Option.some.inj h)
    simp only [Bool.and_eq_true, Bool.not_eq_true', List.isEmpty_eq_false_iff,
      bne_iff_ne] at hstands
    obtain ⟨⟨hne, hblocked⟩, hpoint⟩ := hstands
    rcases nameAt_spec t with hnil | ⟨rest, hsplit, hname, hrest⟩
    · exact absurd hnil hne
    · have hdrop : t.drop (nameAt t).length = rest :=
        (congrArg (List.drop (nameAt t).length) hsplit).trans List.drop_left
      rw [hdrop] at hpoint ⊢
      exact ⟨hblocked, hsplit, hname, fun d hd ↦
        ⟨hrest d hd, fun heq ↦ hpoint (by rw [← heq]; exact hd)⟩⟩
  · rintro ⟨rfl, rfl, hname, hrest⟩
    have hat : nameAt (n ++ rest) = n := nameAt_append hname fun d hd ↦ (hrest d hd).1
    have hpoint : rest.head? ≠ some '.' := fun hd ↦ (hrest '.' hd).2 rfl
    rw [reference?, hat]
    simp [hname.ne_nil, hpoint]

theorem blocks_eq_false_iff : blocks c = false ↔ isWord c = false ∧ c ≠ '$' ∧ c ≠ '.' := by
  simp [blocks, and_assoc]

/-- A reference that begins with a dollar sign in code is what is taken for one. -/
theorem stands_dollar_iff {names : List Text} {before : Option Char} :
    Stands names before (('$', .code) :: m) n ↔
      n ∈ names ∧ ∃ rest, reference? (before.any blocks) m.text = some (n, rest) := by
  have hbefore : before.any blocks = false ↔
      ∀ c ∈ before, isWord c = false ∧ c ≠ '$' ∧ c ≠ '.' := by
    cases before <;> simp [blocks_eq_false_iff]
  constructor
  · rintro ⟨hdeclared, hapart, more, rest, hmore, htext, hname, hrest⟩
    obtain rfl : m = more := (List.cons.inj hmore).2
    exact ⟨hdeclared, rest, reference?_eq_some_iff.mpr ⟨hbefore.mpr hapart, htext, hname, hrest⟩⟩
  · rintro ⟨hdeclared, rest, hread⟩
    obtain ⟨hblocked, htext, hname, hrest⟩ := reference?_eq_some_iff.mp hread
    exact ⟨hdeclared, hbefore.mp hblocked, m, rest, rfl, htext, hname, hrest⟩

/-! ## One step -/

theorem isPlain_of_isWord {nested : Bool} (h : isWord c = true) : IsPlain nested c := by
  have hne : ∀ d, isWord d = false → c ≠ d := by
    rintro d hd rfl
    exact Bool.false_ne_true (hd.symm.trans h)
  exact ⟨hne _ (by decide), hne _ (by decide), hne _ (by decide),
    fun _ ↦ ⟨hne _ (by decide), hne _ (by decide)⟩⟩

theorem marks_word {frames : List Frame} (h : InCode frames) {w : Text}
    (hword : ∀ d ∈ w, isWord d = true) (rest : Text) :
    marks frames (w ++ rest) = within .code w ++ marks frames rest := by
  induction w with
  | nil => rfl
  | cons c w ih =>
    have hc := hword c List.mem_cons_self
    have hslash : c ≠ '/' := by
      rintro rfl
      exact absurd hc (by decide)
    rw [List.cons_append, marks_plain h (isPlain_of_isWord hc) (fun heq ↦ absurd heq hslash),
      ih fun d hd ↦ hword d (List.mem_cons_of_mem c hd)]
    rfl

theorem StringTail.exists_concat {quote : Char} {e : Ending} (h : StringTail quote t e)
    (hclosed : e = .closed) : ∃ s d, t = s ++ [d] ∧ (d = quote ∨ d = '\n') := by
  induction h with
  | quote => exact ⟨[], quote, rfl, .inl rfl⟩
  | lineFeed => exact ⟨[], '\n', rfl, .inr rfl⟩
  | missing => cases hclosed
  | missingEscape => cases hclosed
  | escape c _ ih =>
    obtain ⟨s, d, rfl, hd⟩ := ih hclosed
    exact ⟨'\\' :: c :: s, d, rfl, hd⟩
  | @char c _ _ _ _ _ _ ih =>
    obtain ⟨s, d, rfl, hd⟩ := ih hclosed
    exact ⟨c :: s, d, rfl, hd⟩

/-- A step over inert text, after which a dollar sign in code is not blocked. -/
def TakesInert (frames : List Frame) (blocked : Bool) (c : Char) (cs : Text) : Prop :=
  ∃ t after rest, next frames blocked c cs = (.text (c :: t), after, false, rest) ∧ cs = t ++ rest ∧
    marks frames (c :: cs) = within .inert (c :: t) ++ marks after rest ∧
    (InCode after → rest.head? = some '$' → (c :: t).getLast?.any blocks = false)

/-- A step over one character of code that begins no reference. -/
def TakesPlain (frames : List Frame) (blocked : Bool) (c : Char) (cs : Text) : Prop :=
  ∃ after, next frames blocked c cs = (.text [c], after, blocks c, cs) ∧
    marks frames (c :: cs) = (c, .code) :: marks after cs ∧
    (c = '$' → InCode frames ∧ reference? blocked cs = none)

/-- A step over a reference. -/
def TakesReference (frames : List Frame) (blocked : Bool) (c : Char) (cs : Text) : Prop :=
  ∃ name rest, c = '$' ∧ InCode frames ∧ reference? blocked cs = some (name, rest) ∧
    next frames blocked c cs = (.reference name, frames, true, rest) ∧
    marks frames (c :: cs) = within .code ('$' :: name) ++ marks frames rest

theorem takesInert_literal (outer : List Frame) (blocked : Bool) (c : Char) (cs : Text) :
    TakesInert (.literal :: outer) blocked c cs := by
  rcases literal_cases c cs with rfl | rfl | ⟨inside, rfl, rfl⟩ | ⟨hescape, hclose, hhole⟩
  · cases cs with
    | nil => exact ⟨[], _, [], rfl, rfl, marks_of_next rfl, fun h ↦ absurd rfl h⟩
    | cons d cs => exact ⟨[d], _, cs, rfl, rfl, marks_of_next rfl, fun h ↦ absurd rfl h⟩
  · exact ⟨[], outer, cs, rfl, rfl, marks_of_next rfl, fun _ _ ↦ by decide⟩
  · exact ⟨['\x7b'], _, inside, rfl, rfl, marks_hole, fun _ _ ↦ by decide⟩
  · exact ⟨[], _, cs, next_literal_char hescape hclose hhole, rfl,
      marks_literal_char hescape hclose hhole, fun h ↦ absurd rfl h⟩

section InCode

variable {frames : List Frame} (h : InCode frames) (blocked : Bool)

include h

theorem takesInert_quote (hquote : c = '\'' ∨ c = '"') (cs : Text) :
    TakesInert frames blocked c cs := by
  have hescape : c ≠ '\\' := by rcases hquote with rfl | rfl <;> decide
  rcases exists_stringTail c cs with tail | ⟨t, rest, rfl, tail⟩
  · have hread := stringRest_append tail hescape (fun _ ↦ rfl)
    have hmarks := marks_string h hquote tail (fun _ ↦ rfl)
    rw [List.append_nil] at hread hmarks
    exact ⟨cs, frames, [], by rw [next_quote h hquote, hread], by simp, hmarks, by simp⟩
  · have hread : stringRest c (t ++ rest) = (t, rest) :=
      stringRest_append tail hescape fun h ↦ nomatch h
    refine ⟨t, frames, rest, by rw [next_quote h hquote, hread], rfl,
      marks_string h hquote tail (fun h ↦ nomatch h), fun _ _ ↦ ?_⟩
    obtain ⟨s, d, rfl, hd⟩ := tail.exists_concat rfl
    rw [← List.cons_append, List.getLast?_concat]
    rcases hquote with rfl | rfl <;> rcases hd with rfl | rfl <;> decide

theorem takesInert_lineRemark (cs : Text) : TakesInert frames blocked '/' ('/' :: cs) := by
  have hzone : zoneAt frames '/' ('/' :: cs) = .inert := by rw [zoneAt_of_inCode h]; rfl
  refine ⟨'/' :: cs.takeWhile (· != '\n'), frames, cs.dropWhile (· != '\n'), next_lineRemark h,
    by simp, ?_, fun _ hdollar ↦ ?_⟩
  · rw [marks_of_next (next_lineRemark h), hzone]
    rfl
  · -- What follows is a line feed, if anything.
    have hfeed := List.head?_dropWhile_not (· != '\n') cs
    rw [hdollar] at hfeed
    exact absurd hfeed (by decide)

theorem takesInert_remark (cs : Text) : TakesInert frames blocked '/' ('*' :: cs) := by
  rcases exists_remark cs with hopen | ⟨t, rest, rfl, ht⟩
  · have hread := remarkRest_of_open hopen
    exact ⟨'*' :: cs, frames, [], by rw [next_remark h, hread], by simp, marks_remark h hread,
      by simp⟩
  · have hread := remarkRest_append ht rest
    refine ⟨'*' :: (t ++ ['*', '/']), frames, rest, by rw [next_remark h, hread], rfl,
      marks_remark h hread, fun _ _ ↦ ?_⟩
    have hlast : ('/' :: '*' :: (t ++ ['*', '/'])).getLast? = some '/' := by
      rw [show '/' :: '*' :: (t ++ ['*', '/']) = ('/' :: '*' :: t ++ ['*']) ++ ['/'] by simp,
        List.getLast?_concat]
    rw [hlast]
    decide

theorem takes_of_isPlain {cs : Text} (hplain : IsPlain (!frames.isEmpty) c)
    (hremark : NoRemark c cs) :
    TakesPlain frames blocked c cs ∨ TakesReference frames blocked c cs := by
  by_cases hdollar : c = '$'
  · subst hdollar
    cases hread : reference? blocked cs with
    | none =>
      exact .inl ⟨frames, next_plain h hplain hremark fun _ ↦ hread, marks_plain h hplain hremark,
        fun _ ↦ ⟨h, hread⟩⟩
    | some found =>
      obtain ⟨name, rest⟩ := found
      obtain ⟨-, rfl, hname, -⟩ := reference?_eq_some_iff.mp hread
      refine .inr ⟨name, rest, rfl, h, hread, ?_, ?_⟩
      · rw [next_of_inCode h, nextInCode_of_isPlain hplain hremark, if_pos rfl, hread]
      · rw [marks_plain h hplain hremark, marks_word h hname.isWord]
        rfl
  · exact .inl ⟨frames, next_plain h hplain hremark fun heq ↦ absurd heq hdollar,
      marks_plain h hplain hremark, fun heq ↦ absurd heq hdollar⟩

end InCode

/-- **What the lexer takes in one step.** -/
theorem next_cases (frames : List Frame) (blocked : Bool) (c : Char) (cs : Text) :
    TakesInert frames blocked c cs ∨ TakesPlain frames blocked c cs ∨
      TakesReference frames blocked c cs := by
  by_cases h : InCode frames
  · rcases code_cases (!frames.isEmpty) c cs with hquote | rfl | ⟨inside, rfl, rfl⟩ |
      ⟨inside, rfl, rfl⟩ | ⟨hnested, rfl⟩ | ⟨hnested, rfl⟩ | ⟨hplain, hremark⟩
    · exact .inl (takesInert_quote h blocked hquote cs)
    · exact .inl ⟨[], _, cs, next_literal h, rfl, marks_literal h, fun hcode ↦ absurd rfl hcode⟩
    · exact .inl (takesInert_lineRemark h blocked inside)
    · exact .inl (takesInert_remark h blocked inside)
    · have hne : frames ≠ [] := by simpa using hnested
      exact .inr (.inl ⟨_, next_brace h hne, marks_brace h hne, fun heq ↦ absurd heq (by decide)⟩)
    · have hne : frames ≠ [] := by simpa using hnested
      obtain ⟨frame, outer, rfl⟩ := List.exists_cons_of_ne_nil hne
      exact .inr (.inl ⟨_, next_unbrace h hne, marks_unbrace h, fun heq ↦ absurd heq (by decide)⟩)
    · exact .inr (takes_of_isPlain h blocked hplain hremark)
  · obtain ⟨outer, rfl⟩ := List.head?_eq_some_iff.mp (not_not.mp h)
    exact .inl (takesInert_literal outer blocked c cs)

theorem source_next (frames : List Frame) (blocked : Bool) (c : Char) (cs : Text) :
    (next frames blocked c cs).1.source ++ (next frames blocked c cs).2.2.2 = c :: cs := by
  rcases next_cases frames blocked c cs with ⟨t, after, rest, hnext, rfl, -⟩ | ⟨after, hnext, -⟩ |
    ⟨name, rest, rfl, -, hread, hnext, -⟩
  · rw [hnext]
    rfl
  · rw [hnext]
    rfl
  · rw [hnext, (reference?_eq_some_iff.mp hread).2.1]
    rfl

/-! ## A run -/

/-- The lexemes make up the script. -/
theorem flatMap_source_lexFrom (frames : List Frame) (blocked : Bool) (script : Text) :
    (lexFrom frames blocked script).flatMap Lexeme.source = script := by
  fun_induction lexFrom frames blocked script with
  | case1 => rfl
  | case2 frames blocked c cs step ih => rw [List.flatMap_cons, ih, source_next]

theorem text_marks (frames : List Frame) (script : Text) : (marks frames script).text = script := by
  fun_induction marks frames script with
  | case1 => rfl
  | case2 frames c cs step ih =>
    rw [Marked.text_append, Marked.text_within, ih, source_next]

/-- Whether the flag says of the character before what there is to say, where that matters. -/
def Agrees (frames : List Frame) (blocked : Bool) (before : Option Char) (script : Text) : Prop :=
  InCode frames → script.head? = some '$' → blocked = before.any blocks

/-- The references of a run are those of its first step and those of the rest. -/
theorem hasReference_cons_iff {names : List Text} {before : Option Char} {front : Marked}
    {piece : Lexeme} {pieces : List Lexeme} (hlength : front.length = piece.source.length)
    (hfirst : ∀ i < front.length, (IsReference names before (front ++ m) i n ↔
      piece = .reference n ∧ i = 0))
    (hrest : ∀ j, HasReference pieces j n ↔ IsReference names (front.text.getLast?.or before) m j n)
    (i : Nat) : HasReference (piece :: pieces) i n ↔ IsReference names before (front ++ m) i n := by
  rw [hasReference_cons, ← hlength]
  by_cases hlt : i < front.length
  · rw [hfirst i hlt]
    constructor
    · rintro (h | ⟨j, rfl, -⟩)
      · exact h
      · omega
    · exact .inl
  · obtain ⟨j, rfl⟩ := Nat.exists_eq_add_of_le (Nat.le_of_not_lt hlt)
    rw [isReference_append, ← hrest]
    constructor
    · rintro (⟨rfl, hzero⟩ | ⟨k, hk, h⟩)
      · rw [hlength, Lexeme.source, List.length_cons] at hzero
        omega
      · rwa [Nat.add_left_cancel hk]
    · exact fun h ↦ .inr ⟨j, rfl, h⟩

theorem not_isReference_of_inert {names : List Text} {before : Option Char}
    (hlt : i < (within .inert t).length) :
    ¬ IsReference names before (within .inert t ++ m) i n := by
  intro h
  have hdollar := h.dollar
  rw [List.getElem?_append_left hlt] at hdollar
  obtain ⟨c, -, hc⟩ := List.mem_map.mp (List.mem_of_getElem? hdollar)
  exact absurd (congrArg Prod.snd hc) (by simp)

theorem isReference_zero {names : List Text} {before : Option Char} :
    IsReference names before m 0 n ↔ Stands names before m n := by
  rw [IsReference, List.take_zero, List.getLast?_nil, Option.none_or, List.drop_zero]

/-- Where a reference is taken, one stands at the dollar sign if the name is declared, and none
within the name. -/
theorem isReference_of_reference? {names : List Text} {before : Option Char} {name : Text}
    (hread : reference? (before.any blocks) (name ++ m.text) = some (name, m.text))
    (hi : i < (within .code ('$' :: name)).length) :
    IsReference names before (within .code ('$' :: name) ++ m) i n ↔
      Lexeme.settled names (.reference name) = .reference n ∧ i = 0 := by
  cases i with
  | zero =>
    rw [isReference_zero, within_cons, List.cons_append, stands_dollar_iff, Marked.text_append,
      Marked.text_within, hread]
    by_cases hdeclared : name ∈ names
    · rw [Lexeme.settled, if_pos hdeclared]
      constructor
      · rintro ⟨-, rest', heq⟩
        obtain ⟨rfl, -⟩ := Prod.mk.inj (Option.some.inj heq)
        exact ⟨rfl, rfl⟩
      · rintro ⟨heq, -⟩
        obtain rfl := Lexeme.reference.inj heq
        exact ⟨hdeclared, m.text, rfl⟩
    · rw [Lexeme.settled, if_neg hdeclared]
      refine iff_of_false ?_ (by simp)
      rintro ⟨hn, rest', heq⟩
      obtain ⟨rfl, -⟩ := Prod.mk.inj (Option.some.inj heq)
      exact hdeclared hn
  | succ i =>
    refine iff_of_false (fun h ↦ ?_) (by simp)
    have hdollar := h.dollar
    rw [List.getElem?_append_left hi, within_cons, List.getElem?_cons_succ] at hdollar
    obtain ⟨c, hc, heq⟩ := List.mem_map.mp (List.mem_of_getElem? hdollar)
    obtain rfl : c = '$' := congrArg Prod.fst heq
    have hword := (reference?_eq_some_iff.mp hread).2.2.1.isWord '$' hc
    exact absurd hword (by decide)

theorem IsIdentifier.blocks_last (h : IsIdentifier n) (before : Option Char) :
    (('$' :: n).getLast?.or before).any blocks = true := by
  obtain ⟨s, d, rfl⟩ := (List.eq_nil_or_concat n).resolve_left h.ne_nil
  have hd := h.isWord d (by simp)
  rw [List.concat_eq_append, ← List.cons_append, List.getLast?_concat]
  simp [blocks, hd]

/-- **References are found exactly where they stand.** The induction is along the run, and the
invariant is that the flag agrees with the character before. -/
theorem hasReference_iff (names : List Text) {frames : List Frame} {blocked : Bool}
    {before : Option Char} {script : Text} (hagrees : Agrees frames blocked before script) (i : Nat)
    (n : Text) : HasReference ((lexFrom frames blocked script).map (Lexeme.settled names)) i n ↔
      IsReference names before (marks frames script) i n := by
  fun_induction lexFrom frames blocked script generalizing before i with
  | case1 frames blocked =>
    rw [marks_nil]
    refine iff_of_false not_hasReference_nil fun h ↦ ?_
    exact absurd h.dollar (by simp)
  | case2 frames blocked c cs step =>
    rename_i ih
    rcases next_cases frames blocked c cs with ⟨t, after, rest, hnext, rfl, hmarks, hlast⟩ |
      ⟨after, hnext, hmarks, hdollar⟩ | ⟨name, rest, rfl, hcode, hread, hnext, hmarks⟩
    · have hstep : step = (.text (c :: t), after, false, rest) := hnext
      rw [hstep] at ih ⊢
      rw [hmarks, List.map_cons]
      refine hasReference_cons_iff (by simp [within, Lexeme.settled, Lexeme.source]) ?_ ?_ i
      · intro i hi
        exact iff_of_false (not_isReference_of_inert hi) (by simp [Lexeme.settled])
      · -- After inert text the flag is down, and rightly so before a dollar sign in code.
        refine ih fun hcode hdollar ↦ ?_
        rw [Marked.text_within, List.getLast?_cons, Option.some_or, ← List.getLast?_cons]
        exact (hlast hcode hdollar).symm
    · have hstep : step = (.text [c], after, blocks c, cs) := hnext
      rw [hstep] at ih ⊢
      rw [hmarks, List.map_cons]
      change _ ↔ IsReference names before ([(c, .code)] ++ marks after cs) i n
      refine hasReference_cons_iff (by rw [Lexeme.source_settled]; rfl) ?_ ?_ i
      · intro i hi
        refine iff_of_false (fun h ↦ ?_) (by simp [Lexeme.settled])
        obtain rfl : i = 0 := by simpa using hi
        obtain rfl : c = '$' := by simpa using h.dollar
        -- The lexer passed over this dollar sign, and the flag it went by agrees.
        obtain ⟨hcode, hnone⟩ := hdollar rfl
        rw [isReference_zero, List.singleton_append, stands_dollar_iff, text_marks,
          ← hagrees hcode rfl, hnone] at h
        simp at h
      · exact ih fun _ _ ↦ by simp [Marked.text]
    · have hstep : step = (.reference name, frames, true, rest) := hnext
      obtain ⟨-, rfl, hname, -⟩ := reference?_eq_some_iff.mp hread
      rw [hstep] at ih ⊢
      rw [hmarks, List.map_cons]
      have hlength : (within .code ('$' :: name)).length =
          (Lexeme.settled names (.reference name)).source.length := by
        rw [Lexeme.source_settled, within, List.length_map, Lexeme.source]
      refine hasReference_cons_iff hlength ?_ ?_ i
      · intro i hi
        refine isReference_of_reference? ?_ hi
        rw [text_marks, ← hagrees hcode rfl]
        exact hread
      · refine ih fun _ _ ↦ ?_
        rw [Marked.text_within, hname.blocks_last]

/-- **The generated program is the script with its references replaced.** The script has one
division into zones, and falls into pieces of which those are references that stand as references in
it. -/
theorem dereference_replaces_references (names : List Text) (script : Text) :
    ∃ m, (∀ m', IsZoning script m' ↔ m' = m) ∧
      ∃ pieces : List Lexeme, pieces.flatMap Lexeme.source = script ∧
        pieces.flatMap Lexeme.replaced = dereference names script ∧
        ∀ i n, HasReference pieces i n ↔ IsReference names none m i n := by
  have hstart : Agrees [] false none script := fun _ _ ↦ rfl
  refine ⟨marks [] script, fun m' ↦ isZoning_iff, (lex script).map (Lexeme.settled names), ?_, ?_,
    hasReference_iff names hstart⟩
  · rw [List.flatMap_map]
    simp only [Lexeme.source_settled]
    exact flatMap_source_lexFrom [] false script
  · rw [List.flatMap_map, dereference]
    simp only [Lexeme.replaced_settled]

end Script

end PageCompiler
