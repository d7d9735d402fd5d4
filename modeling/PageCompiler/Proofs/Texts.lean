import Mathlib.Data.List.Basic
import Mathlib.Data.List.Induction
import Mathlib.Data.List.TakeWhile
import PageCompiler.Text.Pieces
import PageCompiler.Text.Quoted

/-!
# Facts about texts

What the operations on texts do, told by lists: a text begins with another when that is a prefix of
it, has a mark when that is an infix of it, and is cut into lines as it was joined from them. The
readers are told by what they give back on a text that was put together from parts, since that is
how they are met when something printed is read again.
-/

namespace PageCompiler

theorem exists_of_map_eq_ok {E α β : Type} {x : Except E α} {f : α → β} {b : β}
    (h : x.map f = .ok b) : ∃ a, x = .ok a ∧ f a = b := by
  cases x with
  | error e => cases h
  | ok a => exact ⟨a, rfl, Except.ok.inj h⟩

theorem eq_error_of_map_eq_error {E α β : Type} {x : Except E α} {f : α → β} {e : E}
    (h : x.map f = .error e) : x = .error e := by
  cases x with
  | error other => exact congrArg Except.error (Except.error.inj h)
  | ok a => cases h

/-! ## Character classes -/

variable {c separator : Char} {t : Text}

namespace CharRanges

theorem exists_range_of_containsCode {ranges : CharRanges} {n : Nat}
    (h : ranges.containsCode n = true) : ∃ range ∈ ranges, range.1 ≤ n ∧ n ≤ range.2 := by
  induction ranges with
  | nil => exact absurd h Bool.false_ne_true
  | cons range rest ih =>
    obtain ⟨lo, hi⟩ := range
    rw [containsCode] at h
    by_cases hlo : n < lo
    · rw [if_pos hlo] at h
      exact absurd h Bool.false_ne_true
    · rw [if_neg hlo] at h
      by_cases hhi : n ≤ hi
      · exact ⟨(lo, hi), List.mem_cons_self, Nat.le_of_not_lt hlo, hhi⟩
      · rw [if_neg hhi] at h
        obtain ⟨range, hmem, hrange⟩ := ih h
        exact ⟨range, List.mem_cons_of_mem _ hmem, hrange⟩

theorem contains_eq_false_of_apart {ranges others : CharRanges}
    (apart : ∀ p ∈ ranges, ∀ q ∈ others, p.2 < q.1 ∨ q.2 < p.1) (h : ranges.contains c = true) :
    others.contains c = false := by
  cases hother : others.contains c with
  | false => rfl
  | true =>
    obtain ⟨p, hp, hp₁, hp₂⟩ := exists_range_of_containsCode h
    obtain ⟨q, hq, hq₁, hq₂⟩ := exists_range_of_containsCode hother
    have := apart p hp q hq
    omega

end CharRanges

theorem isBlank_of_isWord (h : isWord c = true) : isBlank c = false :=
  CharRanges.contains_eq_false_of_apart (by decide +kernel) h

/-- What holds of each of the letters from a first one on is checked by their codes. -/
theorem of_forall_letter {p : Char → Prop} {first : Nat}
    (h : ∀ n : Fin 26, p (Char.ofNat (first + n.val))) (hlow : first ≤ c.toNat)
    (hhigh : c.toNat < first + 26) : p c := by
  have hcode := h ⟨c.toNat - first, by omega⟩
  rwa [Nat.add_sub_cancel' hlow, Char.ofNat_toNat] at hcode

namespace Text

/-! ## Lines -/

theorem splitOn_of_notMem (h : separator ∉ t) : splitOn separator t = [t] := by
  induction t with
  | nil => rfl
  | cons c cs ih =>
    obtain ⟨hc, hcs⟩ := not_or.mp (List.mem_cons.not.mp h)
    rw [splitOn, if_neg (Ne.symm hc), ih hcs]

theorem splitOn_append_cons (h : separator ∉ t) (rest : Text) :
    splitOn separator (t ++ separator :: rest) = t :: splitOn separator rest := by
  induction t with
  | nil => rw [List.nil_append, splitOn, if_pos rfl]
  | cons c cs ih =>
    obtain ⟨hc, hcs⟩ := not_or.mp (List.mem_cons.not.mp h)
    rw [List.cons_append, splitOn, if_neg (Ne.symm hc), ih hcs]

theorem splitOn_ne_nil (separator : Char) (t : Text) : splitOn separator t ≠ [] := by
  cases t with
  | nil => exact List.cons_ne_nil _ _
  | cons c cs =>
    rw [splitOn]
    split_ifs
    · exact List.cons_ne_nil _ _
    · split <;> exact List.cons_ne_nil _ _

theorem notMem_of_mem_splitOn : ∀ piece ∈ splitOn separator t, separator ∉ piece := by
  induction t with
  | nil => exact List.forall_mem_singleton.mpr List.not_mem_nil
  | cons c cs ih =>
    rw [splitOn]
    split_ifs with hc
    · exact List.forall_mem_cons.mpr ⟨List.not_mem_nil, ih⟩
    · obtain ⟨piece, pieces, hsplit⟩ := List.exists_cons_of_ne_nil (splitOn_ne_nil separator cs)
      rw [hsplit] at ih ⊢
      obtain ⟨hpiece, hpieces⟩ := List.forall_mem_cons.mp ih
      refine List.forall_mem_cons.mpr ⟨?_, hpieces⟩
      rw [List.mem_cons, not_or]
      exact ⟨Ne.symm hc, hpiece⟩

theorem splitOn_append_separator (separator : Char) (t u : Text) :
    splitOn separator (t ++ separator :: u) = splitOn separator t ++ splitOn separator u := by
  induction t with
  | nil => exact splitOn_append_cons List.not_mem_nil u
  | cons c cs ih =>
    rw [List.cons_append, splitOn, splitOn, ih]
    split_ifs with hc
    · rfl
    · obtain ⟨piece, pieces, hsplit⟩ := List.exists_cons_of_ne_nil (splitOn_ne_nil separator cs)
      rw [hsplit]
      rfl

theorem splitOn_join {ts : List Text} (hne : ts ≠ []) (h : ∀ t ∈ ts, separator ∉ t) :
    splitOn separator (join [separator] ts) = ts := by
  induction ts with
  | nil => exact absurd rfl hne
  | cons first rest ih =>
    have hfirst : separator ∉ first := h first List.mem_cons_self
    cases rest with
    | nil => exact splitOn_of_notMem hfirst
    | cons second rest =>
      have hrest := ih (List.cons_ne_nil _ _) fun t ht ↦ h t (List.mem_cons_of_mem _ ht)
      rw [join, List.singleton_append, splitOn_append_cons hfirst, hrest]

theorem lines_unlines {ls : List Text} (hne : ls ≠ []) (h : ∀ l ∈ ls, '\n' ∉ l) :
    lines (unlines ls) = ls := splitOn_join hne h

theorem lines_ne_nil (t : Text) : lines t ≠ [] := splitOn_ne_nil _ t

theorem notMem_of_mem_lines (t : Text) : ∀ l ∈ lines t, '\n' ∉ l := notMem_of_mem_splitOn

theorem lines_append_lineFeed (t u : Text) : lines (t ++ '\n' :: u) = lines t ++ lines u :=
  splitOn_append_separator _ t u

/-- What stands around a text is cut where that suits. The marks are literals as a rule, and only
the equations say how they are cut: a literal that is unfolded within a proof costs more than all
else. -/
theorem append_around {start mark close sign quote rest : Text} (hstart : start = mark ++ sign)
    (hclose : close = quote ++ rest) (t : Text) :
    start ++ t ++ close = mark ++ (sign ++ (t ++ quote) ++ rest) := by
  rw [hstart, hclose]
  simp only [List.append_assoc]

theorem mem_of_mem_join {separator : Text} {ts : List Text} (h : c ∈ join separator ts) :
    c ∈ separator ∨ ∃ t ∈ ts, c ∈ t := by
  fun_induction join separator ts with
  | case1 => cases h
  | case2 t => exact .inr ⟨t, List.mem_cons_self, h⟩
  | case3 t u rest ih =>
    rcases List.mem_append.mp h with ht | hmore
    · exact .inr ⟨t, List.mem_cons_self, ht⟩
    · rcases List.mem_append.mp hmore with hseparator | hrest
      · exact .inl hseparator
      · refine (ih hrest).imp_right ?_
        rintro ⟨v, hv, hc⟩
        exact ⟨v, List.mem_cons_of_mem _ hv, hc⟩

theorem unlines_cons (first : Text) {rest : List Text} (h : rest ≠ []) :
    unlines (first :: rest) = first ++ '\n' :: unlines rest := by
  cases rest with
  | nil => exact absurd rfl h
  | cons second rest => rfl

theorem unlines_append {front back : List Text} (hfront : front ≠ []) (hback : back ≠ []) :
    unlines (front ++ back) = unlines front ++ '\n' :: unlines back := by
  induction front with
  | nil => exact absurd rfl hfront
  | cons first rest ih =>
    rw [List.cons_append, unlines_cons first (List.append_ne_nil_of_right_ne_nil rest hback)]
    by_cases hrest : rest = []
    · rw [hrest]
      rfl
    · rw [ih hrest, unlines_cons first hrest, List.append_assoc, List.cons_append]

theorem unlines_lines (t : Text) : unlines (lines t) = t := by
  rw [lines]
  induction t with
  | nil => rfl
  | cons c cs ih =>
    have hne : splitOn '\n' cs ≠ [] := by
      intro hnil
      rw [hnil] at ih
      subst ih
      exact absurd hnil (List.cons_ne_nil _ _)
    obtain ⟨first, rest, hsplit⟩ := List.exists_cons_of_ne_nil hne
    rw [hsplit] at ih
    rw [splitOn, hsplit]
    split_ifs with hc
    · rw [unlines, join, List.nil_append, hc]
      exact congrArg ('\n' :: ·) ih
    · cases rest with
      | nil => exact congrArg (c :: ·) ih
      | cons second rest => exact congrArg (c :: ·) ih

/-! ## Beginnings, ends and occurrences -/

theorem after?_eq_some_iff {start rest : Text} :
    after? start t = some rest ↔ t = start ++ rest := by
  fun_induction after? start t with
  | case1 t => simp [eq_comm]
  | case2 => simp
  | case3 p ps cs ih => simpa using ih
  | case4 p ps c cs hne => simp [Ne.symm hne]

theorem after?_append (start rest : Text) : after? start (start ++ rest) = some rest :=
  after?_eq_some_iff.mpr rfl

theorem after?_of_ne {p : Char} (h : c ≠ p) (ps cs : Text) : after? (p :: ps) (c :: cs) = none := by
  rw [after?, if_neg (Ne.symm h)]

theorem startsWith_iff {start : Text} : startsWith t start = true ↔ start <+: t := by
  rw [startsWith, Option.isSome_iff_exists]
  constructor
  · rintro ⟨rest, h⟩
    exact ⟨rest, (after?_eq_some_iff.mp h).symm⟩
  · rintro ⟨rest, h⟩
    exact ⟨rest, after?_eq_some_iff.mpr h.symm⟩

theorem before?_eq_some_iff {tail front : Text} :
    before? tail t = some front ↔ t = front ++ tail := by
  rw [before?, Option.map_eq_some_iff]
  constructor
  · rintro ⟨found, hfound, rfl⟩
    rw [← List.reverse_inj, List.reverse_append, List.reverse_reverse]
    exact after?_eq_some_iff.mp hfound
  · rintro rfl
    refine ⟨front.reverse, ?_, List.reverse_reverse front⟩
    rw [List.reverse_append]
    exact after?_append _ _

theorem endsWith_iff {tail : Text} : endsWith t tail = true ↔ tail <:+ t := by
  rw [endsWith, Option.isSome_iff_exists]
  constructor
  · rintro ⟨front, h⟩
    exact ⟨front, (before?_eq_some_iff.mp h).symm⟩
  · rintro ⟨front, h⟩
    exact ⟨front, before?_eq_some_iff.mpr h.symm⟩

theorem contains_iff {mark : Text} : contains t mark = true ↔ mark <:+: t := by
  rw [contains]
  induction t with
  | nil =>
    rw [cut?, Option.isSome_map, ← startsWith, startsWith_iff, List.prefix_nil, List.infix_nil]
  | cons c cs ih =>
    rw [List.infix_cons_iff, ← ih, ← startsWith_iff, startsWith, cut?]
    cases after? mark (c :: cs) with
    | none => simp
    | some rest => simp

/-- Whether a mark that is put behind a text begins nowhere in it. -/
def FirstBehind (mark t : Text) : Prop :=
  ∀ front back, t = front ++ back → back ≠ [] → ¬ mark <+: back ++ mark

theorem firstBehind_cons {mark cs : Text} :
    FirstBehind mark (c :: cs) ↔ ¬ mark <+: c :: cs ++ mark ∧ FirstBehind mark cs := by
  constructor
  · intro h
    refine ⟨h [] (c :: cs) rfl (List.cons_ne_nil _ _), fun front back heq hback ↦ ?_⟩
    exact h (c :: front) back (congrArg (c :: ·) heq) hback
  · rintro ⟨hc, hcs⟩ front back heq hback
    cases front with
    | nil =>
      rw [← (show c :: cs = back from heq)]
      exact hc
    | cons d front => exact hcs front back (List.cons.inj heq).2 hback

/-- A text is cut at the first occurrence of a mark. -/
theorem cut?_eq_some_iff {mark front rest : Text} (hne : mark ≠ []) :
    cut? mark t = some (front, rest) ↔ t = front ++ (mark ++ rest) ∧ FirstBehind mark front := by
  induction t generalizing front with
  | nil =>
    refine iff_of_false (fun h ↦ ?_) (fun h ↦ ?_)
    · obtain ⟨found, hfound, -⟩ := Option.map_eq_some_iff.mp h
      have hnil := after?_eq_some_iff.mp hfound
      exact hne (List.append_eq_nil_iff.mp hnil.symm).1
    · exact hne (List.append_eq_nil_iff.mp (List.append_eq_nil_iff.mp h.1.symm).2).1
  | cons c cs ih =>
    rw [cut?]
    cases hafter : after? mark (c :: cs) with
    | some found =>
      rw [after?_eq_some_iff] at hafter
      constructor
      · intro h
        obtain ⟨rfl, rfl⟩ := Prod.mk.inj (Option.some.inj h)
        refine ⟨hafter, fun front back heq hback ↦ ?_⟩
        exact absurd (List.append_eq_nil_iff.mp heq.symm).2 hback
      · rintro ⟨heq, hfirst⟩
        cases front with
        | nil =>
          rw [hafter] at heq
          rw [List.append_cancel_left (show mark ++ found = mark ++ rest from heq)]
        | cons d front =>
          -- The mark begins the text, so it would begin in front of itself.
          have hmark : mark <+: c :: cs := ⟨found, hafter.symm⟩
          have hfront : d :: front ++ mark <+: c :: cs := ⟨rest, by rw [heq, List.append_assoc]⟩
          have hlength : mark.length ≤ (d :: front ++ mark).length := by
            rw [List.length_append]
            exact Nat.le_add_left _ _
          exact absurd (List.prefix_of_prefix_length_le hmark hfront hlength)
            (firstBehind_cons.mp hfirst).1
    | none =>
      have hnone : ¬ mark <+: c :: cs := by
        rintro ⟨found, hfound⟩
        rw [after?_eq_some_iff.mpr hfound.symm] at hafter
        cases hafter
      rw [Option.map_eq_some_iff]
      constructor
      · rintro ⟨⟨before, found⟩, hfound, heq⟩
        obtain ⟨rfl, rfl⟩ := Prod.mk.inj heq
        obtain ⟨rfl, hfirst⟩ := ih.mp hfound
        refine ⟨rfl, firstBehind_cons.mpr ⟨fun hbegins ↦ hnone ?_, hfirst⟩⟩
        refine hbegins.trans ⟨found, ?_⟩
        rw [List.append_assoc]
        rfl
      · rintro ⟨heq, hfirst⟩
        cases front with
        | nil => exact absurd ⟨rest, heq.symm⟩ hnone
        | cons d front =>
          obtain ⟨rfl, rfl⟩ := List.cons.inj heq
          exact ⟨(front, rest), ih.mpr ⟨rfl, (firstBehind_cons.mp hfirst).2⟩, rfl⟩

/-! ## Decisions -/

/-- A condition on the characters of a text is decided along the text, and not by way of all
characters there are. -/
instance (t : Text) (p : Char → Prop) [DecidablePred p] : Decidable (∀ c ∈ t, p c) :=
  List.decidableBAll p t

instance (o : Option Char) (p : Char → Prop) [DecidablePred p] : Decidable (∀ c ∈ o, p c) :=
  Option.decidableForallMem o

instance (mark t : Text) : Decidable (mark <:+: t) := decidable_of_iff _ contains_iff

/-! ## Trimming -/

theorem trimLeft_cons_of_isBlank (h : isBlank c = true) (t : Text) :
    trimLeft (c :: t) = trimLeft t := by
  rw [trimLeft, List.dropWhile_cons_of_pos h, trimLeft]

theorem trimLeft_cons_of_not_isBlank (h : isBlank c = false) (t : Text) :
    trimLeft (c :: t) = c :: t := by
  rw [trimLeft, List.dropWhile_cons_of_neg (Bool.eq_false_iff.mp h)]

theorem trimRight_concat_of_isBlank (h : isBlank c = true) (t : Text) :
    trimRight (t ++ [c]) = trimRight t := by
  rw [trimRight, List.reverse_concat, List.dropWhile_cons_of_pos h, trimRight]

theorem trimRight_concat_of_not_isBlank (h : isBlank c = false) (t : Text) :
    trimRight (t ++ [c]) = t ++ [c] := by
  rw [trimRight, List.reverse_concat, List.dropWhile_cons_of_neg (Bool.eq_false_iff.mp h),
    List.reverse_cons, List.reverse_reverse]

theorem trim_cons_of_isBlank (h : isBlank c = true) (t : Text) : trim (c :: t) = trim t := by
  rw [trim, trimLeft_cons_of_isBlank h, trim]

theorem trim_concat_of_isBlank (h : isBlank c = true) (t : Text) : trim (t ++ [c]) = trim t := by
  induction t with
  | nil => rw [List.nil_append, trim_cons_of_isBlank h]
  | cons d ds ih =>
    cases hd : isBlank d with
    | true => rw [List.cons_append, trim_cons_of_isBlank hd, ih, trim_cons_of_isBlank hd]
    | false =>
      rw [trim, trim, List.cons_append, trimLeft_cons_of_not_isBlank hd,
        trimLeft_cons_of_not_isBlank hd, ← List.cons_append, trimRight_concat_of_isBlank h]

theorem trimLeft_append_of_isBlank {blanks : Text} (h : ∀ c ∈ blanks, isBlank c = true)
    (rest : Text) : trimLeft (blanks ++ rest) = trimLeft rest :=
  List.dropWhile_append_of_pos h

theorem trim_append_of_isBlank {blanks last : Text} (hblanks : ∀ c ∈ blanks, isBlank c = true)
    (hlast : ∀ c ∈ last, isBlank c = true) : trim (blanks ++ t ++ last) = trim t := by
  induction last using List.reverseRecOn with
  | nil => rw [List.append_nil, trim, trimLeft_append_of_isBlank hblanks, trim]
  | append_singleton last c ih =>
    have hc : isBlank c = true := hlast c (by simp)
    rw [← List.append_assoc, trim_concat_of_isBlank hc]
    exact ih fun d hd ↦ hlast d (List.mem_append_left _ hd)

theorem trimRight_append_cons (h : isBlank c = false) (front rest : Text) :
    trimRight (front ++ c :: rest) = front ++ c :: trimRight rest := by
  induction rest using List.reverseRecOn with
  | nil => exact trimRight_concat_of_not_isBlank h front
  | append_singleton rest d ih =>
    rw [← List.cons_append, ← List.append_assoc]
    cases hd : isBlank d with
    | true => rw [trimRight_concat_of_isBlank hd, ih, trimRight_concat_of_isBlank hd]
    | false =>
      rw [trimRight_concat_of_not_isBlank hd, trimRight_concat_of_not_isBlank hd,
        List.append_assoc, List.cons_append]

theorem not_isBlank_last_trimRight (h : isBlank c = false) (t : Text) :
    ∀ d ∈ (c :: trimRight t).getLast?, isBlank d = false := by
  have htrim : c :: trimRight t = trimRight (c :: t) := (trimRight_append_cons h [] t).symm
  intro d hd
  rw [htrim, trimRight, List.getLast?_reverse] at hd
  have hnot := List.head?_dropWhile_not isBlank (c :: t).reverse
  rw [hd] at hnot
  exact hnot

theorem trimRight_of_isBlank (h : ∀ c ∈ t, isBlank c = true) : trimRight t = [] := by
  rw [trimRight, List.dropWhile_eq_nil_iff.mpr (by simpa using h)]
  rfl

theorem trim_trimRight (t : Text) : trim (trimRight t) = trim t := by
  induction t using List.reverseRecOn with
  | nil => rfl
  | append_singleton t c ih =>
    cases hc : isBlank c with
    | true => rw [trimRight_concat_of_isBlank hc, ih, trim_concat_of_isBlank hc]
    | false => rw [trimRight_concat_of_not_isBlank hc]

theorem trim_of_isBlank (h : ∀ c ∈ t, isBlank c = true) : trim t = [] := by
  rw [trim, trimLeft, List.dropWhile_eq_nil_iff.mpr h]
  rfl

theorem trim_of_ends {first last : Char} (hfirst : isBlank first = false)
    (hlast : isBlank last = false) (t : Text) :
    trim (first :: t ++ [last]) = first :: t ++ [last] := by
  rw [trim, List.cons_append, trimLeft_cons_of_not_isBlank hfirst, ← List.cons_append,
    trimRight_concat_of_not_isBlank hlast]

theorem trim_of_not_isBlank (h : ∀ c ∈ t, isBlank c = false) : trim t = t := by
  have hdrop : ∀ u : Text, (∀ c ∈ u, isBlank c = false) → u.dropWhile isBlank = u := by
    intro u hu
    cases u with
    | nil => rfl
    | cons c cs => rw [List.dropWhile_cons_of_neg (by simp [hu c])]
  rw [trim, trimLeft, hdrop t h, trimRight, hdrop _ (by simpa using h), List.reverse_reverse]

theorem trim_cons_of_not_isBlank (h : isBlank c = false) (t : Text) :
    ∃ u, trim (c :: t) = c :: u := by
  induction t using List.reverseRecOn with
  | nil =>
    refine ⟨[], ?_⟩
    rw [trim, trimLeft_cons_of_not_isBlank h]
    exact trimRight_concat_of_not_isBlank h []
  | append_singleton t d ih =>
    cases hd : isBlank d with
    | true => rwa [← List.cons_append, trim_concat_of_isBlank hd]
    | false => exact ⟨t ++ [d], trim_of_ends h hd t⟩

theorem isSuffix_trimLeft (t : Text) : trimLeft t <:+ t := List.dropWhile_suffix isBlank

theorem isPrefix_trimRight (t : Text) : trimRight t <+: t := by
  rw [← List.reverse_suffix, trimRight, List.reverse_reverse]
  exact List.dropWhile_suffix isBlank

theorem exists_append_trimLeft (t : Text) :
    ∃ blanks, t = blanks ++ trimLeft t ∧ ∀ c ∈ blanks, isBlank c = true :=
  ⟨t.takeWhile isBlank, List.takeWhile_append_dropWhile.symm, fun _ hc ↦ List.mem_takeWhile_imp hc⟩

theorem exists_trimRight_append (t : Text) :
    ∃ blanks, t = trimRight t ++ blanks ∧ ∀ c ∈ blanks, isBlank c = true := by
  obtain ⟨blanks, hsplit, hblanks⟩ := exists_append_trimLeft t.reverse
  have hreversed := congrArg List.reverse hsplit
  rw [List.reverse_reverse, List.reverse_append] at hreversed
  exact ⟨blanks.reverse, hreversed, by simpa using hblanks⟩

theorem exists_trim_around (t : Text) : ∃ front last, t = front ++ trim t ++ last ∧
    (∀ c ∈ front, isBlank c = true) ∧ ∀ c ∈ last, isBlank c = true := by
  obtain ⟨front, hfront, hblank⟩ := exists_append_trimLeft t
  obtain ⟨last, hlast, hblank'⟩ := exists_trimRight_append (trimLeft t)
  refine ⟨front, last, ?_, hblank, hblank'⟩
  rw [List.append_assoc, trim, ← hlast, ← hfront]

theorem isInfix_trim (t : Text) : trim t <:+: t :=
  (isPrefix_trimRight _).isInfix.trans (isSuffix_trimLeft t).isInfix

theorem length_trim_le (t : Text) : (trim t).length ≤ t.length := (isInfix_trim t).length_le

theorem not_isBlank_last_of_trim_eq (h : trim (t ++ [c]) = t ++ [c]) : isBlank c = false := by
  cases hc : isBlank c with
  | false => rfl
  | true =>
    have hle := length_trim_le t
    rw [← trim_concat_of_isBlank hc, h, List.length_append, List.length_singleton] at hle
    omega

theorem trimRight_append_of_trim_eq (h : trim t = t) (hne : t ≠ []) (front : Text) :
    trimRight (front ++ t) = front ++ t := by
  induction t using List.reverseRecOn with
  | nil => exact absurd rfl hne
  | append_singleton t c _ =>
    rw [← List.append_assoc]
    exact trimRight_concat_of_not_isBlank (not_isBlank_last_of_trim_eq h) _

/-! ## Readers -/

section Run

variable {p : Char → Bool} {run rest : Text} (hrun : ∀ c ∈ run, p c = true)
  (hrest : ∀ c, rest.head? = some c → p c = false)

include hrun hrest

theorem takeWhile_append_of_stop : (run ++ rest).takeWhile p = run := by
  rw [List.takeWhile_append_of_pos hrun]
  cases rest with
  | nil => simp
  | cons c cs => simp [hrest c rfl]

theorem dropWhile_append_of_stop : (run ++ rest).dropWhile p = rest := by
  rw [List.dropWhile_append_of_pos hrun]
  cases rest with
  | nil => rfl
  | cons c cs => rw [List.dropWhile_cons_of_neg (by simp [hrest c rfl])]

end Run

theorem run?_append {p : Char → Bool} {run rest : Text} (hne : run ≠ [])
    (hrun : ∀ c ∈ run, p c = true)
    (hrest : ∀ c, rest.head? = some c → p c = false) : run? p (run ++ rest) = some (run, rest) := by
  rw [run?, takeWhile_append_of_stop hrun hrest, dropWhile_append_of_stop hrun hrest]
  cases run with
  | nil => exact absurd rfl hne
  | cons c cs => rfl

theorem run?_eq_some {p : Char → Bool} {run rest : Text} (h : run? p t = some (run, rest)) :
    run ≠ [] ∧ run = t.takeWhile p ∧ rest = t.dropWhile p := by
  rw [run?] at h
  split at h
  · cases h
  · next c cs hrun =>
    obtain ⟨rfl, rfl⟩ := Prod.mk.inj (Option.some.inj h)
    exact ⟨List.cons_ne_nil _ _, hrun.symm, rfl⟩

theorem append_of_run? {p : Char → Bool} {run rest : Text} (h : run? p t = some (run, rest)) :
    t = run ++ rest := by
  obtain ⟨-, rfl, rfl⟩ := run?_eq_some h
  exact List.takeWhile_append_dropWhile.symm

theorem forall_of_run? {p : Char → Bool} {run rest : Text} (h : run? p t = some (run, rest)) :
    ∀ c ∈ run, p c = true := by
  obtain ⟨-, rfl, -⟩ := run?_eq_some h
  exact fun c hc ↦ List.mem_takeWhile_imp hc

theorem ne_nil_of_run? {p : Char → Bool} {run rest : Text} (h : run? p t = some (run, rest)) :
    run ≠ [] := (run?_eq_some h).1

theorem atWordEnd_of_word? {word rest : Text} (h : word? t = some (word, rest)) :
    atWordEnd rest = true := by
  obtain ⟨-, -, rfl⟩ := run?_eq_some h
  cases hrest : t.dropWhile isWord with
  | nil => rfl
  | cons c cs =>
    have hne : t.dropWhile isWord ≠ [] := by
      rw [hrest]
      exact List.cons_ne_nil c cs
    have hhead := List.head_dropWhile_not isWord hne
    simpa [hrest, atWordEnd] using hhead

theorem char?_eq_some_iff {p : Char → Bool} {rest : Text} :
    char? p t = some (c, rest) ↔ t = c :: rest ∧ p c = true := by
  cases t with
  | nil => simp [char?]
  | cons d ds =>
    rw [char?]
    split_ifs with hd
    · simp only [Option.some.injEq, Prod.mk.injEq, List.cons.injEq]
      constructor
      · rintro ⟨rfl, rfl⟩
        exact ⟨⟨rfl, rfl⟩, hd⟩
      · exact fun h ↦ h.1
    · refine iff_of_false (by simp) ?_
      rintro ⟨heq, hc⟩
      obtain ⟨rfl, -⟩ := List.cons.inj heq
      exact hd hc

theorem isSuffix_of_char? {p : Char → Bool} {rest : Text} (h : char? p t = some (c, rest)) :
    rest <:+ t :=
  ⟨[c], (char?_eq_some_iff.mp h).1.symm⟩

theorem isSuffix_of_after? {start rest : Text} (h : after? start t = some rest) : rest <:+ t :=
  ⟨start, (after?_eq_some_iff.mp h).symm⟩

theorem blanks?_blank (t : Text) : blanks? (' ' :: t) = some (trimLeft t) := rfl

theorem after?_trimLeft (h : isBlank c = false) (mark rest : Text) :
    after? (c :: mark) (trimLeft (' ' :: c :: (mark ++ rest))) = some rest := by
  rw [trimLeft_cons_of_isBlank (by decide), trimLeft_cons_of_not_isBlank h]
  exact after?_append (c :: mark) rest

/-- A text that a name may be: word characters, and at least one. -/
def IsName (t : Text) : Prop := t ≠ [] ∧ ∀ c ∈ t, isWord c = true

instance (t : Text) : Decidable (IsName t) := inferInstanceAs (Decidable (_ ∧ _))

namespace IsName

variable {name : Text}

theorem word?_append (h : IsName name) {rest : Text}
    (hrest : ∀ c, rest.head? = some c → isWord c = false) :
    word? (name ++ rest) = some (name, rest) := run?_append h.1 h.2 hrest

theorem of_word? {rest : Text} (h : word? t = some (name, rest)) : IsName name :=
  ⟨ne_nil_of_run? h, forall_of_run? h⟩

theorem exists_cons (h : IsName name) : ∃ c cs, name = c :: cs ∧ isWord c = true := by
  cases name with
  | nil => exact absurd rfl h.1
  | cons c cs => exact ⟨c, cs, rfl, h.2 c List.mem_cons_self⟩

theorem trimLeft_append (h : IsName name) (rest : Text) :
    trimLeft (name ++ rest) = name ++ rest := by
  obtain ⟨c, cs, rfl, hc⟩ := h.exists_cons
  exact trimLeft_cons_of_not_isBlank (isBlank_of_isWord hc) _

theorem notMem_lineFeed (h : IsName name) : '\n' ∉ name := fun hmem ↦
  absurd (h.2 _ hmem) (by decide)

end IsName

theorem upTo?_append_cons {stop : Char} (h : stop ∉ t) (rest : Text) :
    upTo? stop (t ++ stop :: rest) = some (t, rest) := by
  have hpass : ∀ c ∈ t, (c != stop) = true := fun c hc ↦ bne_iff_ne.mpr fun heq ↦ h (heq ▸ hc)
  rw [upTo?, List.dropWhile_append_of_pos hpass, List.takeWhile_append_of_pos hpass]
  simp

theorem upTo?_eq_some_iff {stop : Char} {front rest : Text} :
    upTo? stop t = some (front, rest) ↔ t = front ++ stop :: rest ∧ stop ∉ front := by
  constructor
  · intro h
    rw [upTo?] at h
    split at h
    · cases h
    · next c after hdrop =>
      obtain ⟨rfl, rfl⟩ := Prod.mk.inj (Option.some.inj h)
      have hc : c = stop := by
        have hne : t.dropWhile (· != stop) ≠ [] := by
          rw [hdrop]
          exact List.cons_ne_nil _ _
        have hhead := List.head_dropWhile_not _ hne
        simpa [hdrop] using hhead
      subst hc
      refine ⟨?_, fun hmem ↦ ?_⟩
      · rw [← hdrop, List.takeWhile_append_dropWhile]
      · simpa using List.mem_takeWhile_imp hmem
  · rintro ⟨rfl, hfront⟩
    exact upTo?_append_cons hfront rest

/-! ## Searching -/

section Searching

variable {α : Type} {read : Reader α} {c : Char} {cs : Text}

theorem pieces_cons_of_none (h : read (c :: cs) = none) :
    pieces read (c :: cs) = .plain c :: pieces read cs := by
  rw [pieces, h]

theorem pieces_cons_of_some {a : α} {rest : Text} (h : read (c :: cs) = some (a, rest))
    (hrest : rest.length ≤ cs.length) :
    pieces read (c :: cs) = .found a :: pieces read rest := by
  rw [pieces, h]
  simp only [hrest, if_true]

theorem exists_of_found_mem {a : α} (h : .found a ∈ pieces read t) :
    ∃ u rest, read u = some (a, rest) := by
  fun_induction pieces read t with
  | case1 => exact absurd h List.not_mem_nil
  | case2 c cs hread ih => exact ih (by simpa using h)
  | case3 c cs b rest hread hrest ih =>
    rcases List.mem_cons.mp h with heq | hmem
    · obtain rfl := Piece.found.inj heq
      exact ⟨_, rest, hread⟩
    · exact ih hmem
  | case4 c cs b rest hread hrest ih => exact ih (by simpa using h)

theorem exists_of_mem_findAll {a : α} (h : a ∈ findAll read t) :
    ∃ u rest, read u = some (a, rest) := by
  obtain ⟨piece, hpiece, hfound⟩ := List.mem_filterMap.mp h
  cases piece with
  | plain c => exact nomatch hfound
  | found b =>
    obtain rfl := Option.some.inj hfound
    exact exists_of_found_mem hpiece

theorem findAll_append_of_none {rest : Text}
    (h : ∀ u v, t = u ++ v → v ≠ [] → read (v ++ rest) = none) :
    findAll read (t ++ rest) = findAll read rest := by
  induction t with
  | nil => rfl
  | cons c t ih =>
    have hc : read (c :: (t ++ rest)) = none := h [] (c :: t) rfl (List.cons_ne_nil _ _)
    rw [List.cons_append, findAll, pieces_cons_of_none hc, List.filterMap_cons, ← findAll]
    exact ih fun u v heq ↦ h (c :: u) v (congrArg (c :: ·) heq)

theorem exists_of_find? {a : α} (h : find? read t = some a) :
    ∃ u rest, u <:+ t ∧ read u = some (a, rest) := by
  fun_induction find? read t with
  | case1 =>
    obtain ⟨⟨a, rest⟩, hread, rfl⟩ := Option.map_eq_some_iff.mp h
    exact ⟨[], rest, List.suffix_rfl, hread⟩
  | case2 c cs b rest hread =>
    obtain rfl := Option.some.inj h
    exact ⟨c :: cs, rest, List.suffix_rfl, hread⟩
  | case3 c cs hread ih =>
    obtain ⟨u, rest, hsuffix, hu⟩ := ih h
    exact ⟨u, rest, hsuffix.trans (List.suffix_cons c cs), hu⟩

theorem substitute_cons_of_none (h : read (c :: cs) = none) (write : α → Text) :
    substitute read write (c :: cs) = c :: substitute read write cs := by
  rw [substitute, pieces_cons_of_none h, List.flatMap_cons]
  rfl

theorem substitute_append_of_some {source rest : Text} {a : α} (hne : source ≠ [])
    (h : read (source ++ rest) = some (a, rest)) (write : α → Text) :
    substitute read write (source ++ rest) = write a ++ substitute read write rest := by
  obtain ⟨c, cs, rfl⟩ := List.exists_cons_of_ne_nil hne
  have hlength : rest.length ≤ (cs ++ rest).length := by
    rw [List.length_append]
    exact Nat.le_add_left _ _
  rw [List.cons_append] at h ⊢
  rw [substitute, pieces_cons_of_some h hlength, List.flatMap_cons, ← substitute]

/-- Searching passes over characters that nothing begins with. -/
theorem substitute_append_of_none {front : Text} (h : ∀ c ∈ front, ∀ t, read (c :: t) = none)
    (write : α → Text) (back : Text) :
    substitute read write (front ++ back) = front ++ substitute read write back := by
  induction front with
  | nil => rfl
  | cons c cs ih =>
    obtain ⟨hc, hcs⟩ := List.forall_mem_cons.mp h
    rw [List.cons_append, substitute_cons_of_none (hc _), ih hcs, List.cons_append]

theorem substitute_of_none (h : ∀ c ∈ t, ∀ u, read (c :: u) = none) (write : α → Text) :
    substitute read write t = t := by
  have happend := substitute_append_of_none h write []
  rw [List.append_nil, substitute, substitute, pieces, List.flatMap_nil, List.append_nil] at happend
  exact happend

end Searching

/-! ## Digits -/

section Digits

variable {c : Char} (hc : ∀ d : Fin 16, Nat.digitChar d.val ≠ c)

include hc

theorem notMem_toDigits {base : Nat} (hbase : 1 < base) (hle : base ≤ 16) (n : Nat) :
    c ∉ Nat.toDigits base n := by
  induction n using Nat.strong_induction_on with
  | _ n ih =>
    by_cases hn : n < base
    · rw [Nat.toDigits_of_lt_base hn, List.mem_singleton]
      exact (hc ⟨n, by omega⟩).symm
    · have hmod : n % base < 16 := Nat.lt_of_lt_of_le (Nat.mod_lt n (by omega)) hle
      rw [Nat.toDigits_of_base_le hbase (by omega), List.mem_append, List.mem_singleton, not_or]
      exact ⟨ih _ (Nat.div_lt_self (by omega) hbase), (hc ⟨n % base, hmod⟩).symm⟩

theorem notMem_hex (width n : Nat) : c ∉ hex width n := by
  rw [hex, List.mem_append, not_or]
  refine ⟨fun hmem ↦ ?_, notMem_toDigits hc (by decide) (by decide) n⟩
  exact hc 0 (List.eq_of_mem_replicate hmem).symm

end Digits

end Text

end PageCompiler
