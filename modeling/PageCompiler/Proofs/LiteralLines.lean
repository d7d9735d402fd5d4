import PageCompiler.Proofs.ClosingPunctuation
import PageCompiler.Proofs.ProgramLines

/-!
# Template literals over several lines

The lines of a function's body are moved to the level inside the function: the indentation they have
in common is taken off, four blanks are put in front, and blanks at the end are dropped. In code
that changes nothing, but a line break may stand in the text of a template literal, where every
blank counts. So the text of the template literals is kept exactly where no line break in it has
blanks before it, and every line after one is empty or was indented by four blanks to begin with.

## Line by line

What a line can do to the next one is said by the place at its end. Blanks lead from a place to one
that further blanks do not change, and a line feed leads to a place that blanks do not change at
all (`Pending.pastBlank`, `Pending.pastLine`); so a line that was moved leads to where it led
before, and the induction over the lines goes on from the same place in both scripts. There is one
exception, an escaped blank at the end of a line in a string literal: without it the escape takes
the line feed.
-/

namespace PageCompiler

variable {l b t : Text} {c : Char} {ls : List Text}

namespace Script

/-! ## Blanks -/

def Pending.pastBlank : Pending → Pending
  | .nothing | .slash | .dollar | .escape => .nothing
  | .string quote | .stringEscape quote => .string quote
  | .lineRemark => .lineRemark
  | .remark | .star => .remark

def Pending.pastLine : Pending → Pending
  | .nothing | .slash | .dollar | .escape | .string _ | .lineRemark => .nothing
  | .stringEscape quote => .string quote
  | .remark | .star => .remark

@[simp] theorem Pending.pastBlank_pastBlank (pending : Pending) :
    pending.pastBlank.pastBlank = pending.pastBlank := by
  cases pending <;> rfl

@[simp] theorem Pending.pastBlank_pastLine (pending : Pending) :
    pending.pastLine.pastBlank = pending.pastLine := by
  cases pending <;> rfl

theorem Pending.pastLine_pastBlank {pending : Pending}
    (h : ∀ quote, pending ≠ .stringEscape quote) :
    pending.pastBlank.pastLine = pending.pastLine := by
  cases pending with
  | stringEscape quote => exact absurd rfl (h quote)
  | _ => rfl

namespace Place

variable {p : Place} {c : Char} {b : Text}

theorem stepOpen_of_isBlank (h : isBlank c = true) (frames : List Frame) (pending : Pending) :
    stepOpen frames pending c = ⟨frames, .nothing⟩ := by
  have hne : ∀ d, isBlank d = false → c ≠ d := by
    rintro d hd rfl
    exact Bool.false_ne_true (hd.symm.trans h)
  by_cases hcode : InCode frames
  · rw [stepOpen_of_inCode hcode]
    simp [stepCode, hne '\'' (by decide), hne '"' (by decide), hne '\x60' (by decide),
      hne '/' (by decide), hne '*' (by decide), hne '\x7b' (by decide), hne '\x7d' (by decide)]
  · obtain ⟨outer, rfl⟩ := List.head?_eq_some_iff.mp (not_not.mp hcode)
    change stepLiteral outer pending c = _
    simp [stepLiteral, hne '\\' (by decide), hne '\x60' (by decide), hne '\x7b' (by decide),
      hne '$' (by decide)]

theorem step_of_isBlank (h : isBlank c = true) (hfeed : c ≠ '\n') :
    p.step c = ⟨p.frames, p.pending.pastBlank⟩ := by
  obtain ⟨hsingle, hdouble, -, hslash, hstar, -, -⟩ := isIdle_of_isBlank h hfeed
  have hescape : c ≠ '\\' := by
    rintro rfl
    exact absurd h (by decide)
  obtain ⟨frames, pending⟩ := p
  cases pending with
  | nothing | slash | dollar => exact stepOpen_of_isBlank h frames _
  | escape | stringEscape quote => rfl
  | string quote =>
    have hquote : c ≠ quote.char := by
      cases quote with
      | single => exact hsingle
      | double => exact hdouble
    simp [step, Pending.pastBlank, hescape, hquote, hfeed]
  | lineRemark | remark | star => simp [step, Pending.pastBlank, hfeed, hslash, hstar]

theorem step_lineFeed (p : Place) : p.step '\n' = ⟨p.frames, p.pending.pastLine⟩ := by
  obtain ⟨frames, pending⟩ := p
  cases pending with
  | nothing | slash | dollar => exact stepOpen_of_isBlank (by decide) frames _
  | _ => simp [step, Pending.pastLine]

@[simp] theorem frames_step_lineFeed (p : Place) : (p.step '\n').frames = p.frames := by
  rw [step_lineFeed]

theorem frames_step_of_isBlank (h : isBlank c = true) : (p.step c).frames = p.frames := by
  by_cases hfeed : c = '\n'
  · rw [hfeed, frames_step_lineFeed]
  · rw [step_of_isBlank h hfeed]

theorem frames_walk_of_isBlank (h : ∀ c ∈ b, isBlank c = true) :
    (p.walk b).frames = p.frames := by
  induction b generalizing p with
  | nil => rfl
  | cons c b ih =>
    obtain ⟨hc, hb⟩ := List.forall_mem_cons.mp h
    rw [walk_cons, ih hb, frames_step_of_isBlank hc]

/-- Blanks are in the text of a template literal all together or not at all. -/
theorem literalPart_of_isBlank (h : ∀ c ∈ b, isBlank c = true) :
    p.literalPart b = if p.InLiteral then b else [] := by
  induction b generalizing p with
  | nil => exact (ite_self _).symm
  | cons c b ih =>
    obtain ⟨hc, hb⟩ := List.forall_mem_cons.mp h
    have hsame : (p.step c).InLiteral ↔ p.InLiteral := by
      rw [InLiteral, frames_step_of_isBlank hc, InLiteral]
    rw [literalPart, ih hb]
    simp only [hsame]
    split_ifs <;> rfl

theorem walk_of_isBlank (h : ∀ c ∈ b, isBlank c = true) (hline : '\n' ∉ b) (hne : b ≠ []) :
    p.walk b = ⟨p.frames, p.pending.pastBlank⟩ := by
  induction b generalizing p with
  | nil => exact absurd rfl hne
  | cons c b ih =>
    obtain ⟨hc, hb⟩ := List.forall_mem_cons.mp h
    obtain ⟨hfeed, hline⟩ := not_or.mp (List.mem_cons.not.mp hline)
    rw [walk_cons, step_of_isBlank hc (Ne.symm hfeed)]
    by_cases hnil : b = []
    · rw [hnil, walk_nil]
    · rw [ih hb hline hnil, Pending.pastBlank_pastBlank]

/-- Whether blanks lead nowhere from a place, as where a line begins. -/
def IsSettled (p : Place) : Prop := p.pending.pastBlank = p.pending

theorem isSettled_step_lineFeed (p : Place) : (p.step '\n').IsSettled := by
  rw [step_lineFeed]
  exact Pending.pastBlank_pastLine _

theorem IsSettled.walk_of_isBlank (hp : p.IsSettled) (h : ∀ c ∈ b, isBlank c = true)
    (hline : '\n' ∉ b) : p.walk b = p := by
  by_cases hnil : b = []
  · rw [hnil, walk_nil]
  · rw [Place.walk_of_isBlank h hline hnil, hp]

end Place

/-! ## A line that is moved -/

/-- A line at the level inside a function, with so much of its indentation taken off. -/
def moved (indent : Nat) (l : Text) : Text := line 2 (Text.trimRight (l.drop indent))

/-- The blanks in front of a line inside a function. -/
def margin : Text := List.replicate 4 ' '

/-- A line that is not blank: what is taken off it at both ends, and what is kept. -/
structure Inked (indent : Nat) (l : Text) where
  /-- The blanks that are taken off. -/
  lead : Text
  /-- The blanks that are kept. -/
  inner : Text
  /-- The first character that is not blank. -/
  first : Char
  /-- What follows it. -/
  more : Text
  /-- The blanks at the end. -/
  trail : Text
  eq_append : l = lead ++ (inner ++ first :: more) ++ trail
  length_lead : lead.length = indent
  lead_isBlank : ∀ c ∈ lead, isBlank c = true
  inner_isBlank : ∀ c ∈ inner, isBlank c = true
  first_isBlank : isBlank first = false
  trail_isBlank : ∀ c ∈ trail, isBlank c = true
  last_isBlank : ∀ c ∈ (first :: more).getLast?, isBlank c = false
  moved_eq : moved indent l = margin ++ (inner ++ first :: more)

theorem exists_inked {indent : Nat} (hblank : Text.isBlankText l = false)
    (hindent : indent ≤ indentation l) : Nonempty (Inked indent l) := by
  obtain ⟨first, rest, hrest⟩ : ∃ first rest, l.dropWhile isBlank = first :: rest := by
    refine List.exists_cons_of_ne_nil fun hnil ↦ ?_
    rw [List.dropWhile_eq_nil_iff] at hnil
    rw [Text.isBlankText, List.all_eq_true.mpr hnil] at hblank
    exact absurd hblank (by decide)
  have hfirst : isBlank first = false := by
    have hnot := List.head?_dropWhile_not isBlank l
    rw [hrest] at hnot
    exact hnot
  have hl : l = l.takeWhile isBlank ++ first :: rest := by
    rw [← hrest, List.takeWhile_append_dropWhile]
  obtain ⟨trail, htrail, hblanks⟩ := Text.exists_trimRight_append rest
  have htake : ∀ c ∈ l.takeWhile isBlank, isBlank c = true := fun c hc ↦ List.mem_takeWhile_imp hc
  have hdrop : l.drop indent = (l.takeWhile isBlank).drop indent ++ first :: rest := by
    conv_lhs => rw [hl]
    exact List.drop_append_of_le_length hindent
  refine ⟨⟨(l.takeWhile isBlank).take indent, (l.takeWhile isBlank).drop indent, first,
    Text.trimRight rest, trail, ?_, ?_, ?_, ?_, hfirst, hblanks, ?_, ?_⟩⟩
  · conv_lhs => rw [hl, htrail]
    rw [← List.append_assoc, List.take_append_drop, List.append_assoc, List.cons_append]
  · exact List.length_take_of_le hindent
  · exact fun c hc ↦ htake c (List.mem_of_mem_take hc)
  · exact fun c hc ↦ htake c (List.mem_of_mem_drop hc)
  · exact Text.not_isBlank_last_trimRight hfirst rest
  · rw [moved, hdrop, Text.trimRight_append_cons hfirst, line]
    simp [margin]

theorem moved_of_isBlank (h : ∀ c ∈ l, isBlank c = true) (indent : Nat) : moved indent l = [] := by
  rw [moved, Text.trimRight_of_isBlank fun c hc ↦ h c (List.mem_of_mem_drop hc)]
  rfl

theorem forall_of_isBlankText (h : Text.isBlankText l = true) :
    ∀ c ∈ l, isBlank c = true := List.all_eq_true.mp h

/-- Whether no blank stands at the end of a text, except for a line feed. -/
def EndsFlush (t : Text) : Prop := ∀ c ∈ t.getLast?, isBlank c = true → c = '\n'

instance (t : Text) : Decidable (EndsFlush t) := inferInstanceAs (Decidable (∀ c ∈ t.getLast?, _))

theorem not_endsFlush_append (front : Text) (h : ∀ c ∈ b, isBlank c = true) (hline : '\n' ∉ b)
    (hne : b ≠ []) : ¬ EndsFlush (front ++ b) := by
  intro hflush
  obtain ⟨init, c, rfl⟩ := (List.eq_nil_or_concat b).resolve_left hne
  have hc : c ∈ init.concat c := by simp
  have hfeed := hflush c (by simp) (h c hc)
  exact hline (hfeed ▸ hc)

section Line

variable {p : Place} {indent : Nat} {l : Text}

namespace Inked

variable (x : Inked indent l)

theorem mem_of_mem_lead (h : c ∈ x.lead) : c ∈ l := by
  rw [x.eq_append]
  simp [h]

theorem mem_of_mem_trail (h : c ∈ x.trail) : c ∈ l := by
  rw [x.eq_append]
  simp [h]

/-- The part of the line that is kept. -/
def core : Text := x.inner ++ x.first :: x.more

theorem eq_around : l = x.lead ++ x.core ++ x.trail := x.eq_append

theorem walk_lead_core (hp : p.IsSettled) (hline : '\n' ∉ l) :
    p.walk (x.lead ++ x.core) = p.walk x.core := by
  rw [Place.walk_append, hp.walk_of_isBlank x.lead_isBlank fun h ↦ hline (x.mem_of_mem_lead h)]

theorem walk_moved (hp : p.IsSettled) : p.walk (moved indent l) = p.walk x.core := by
  rw [x.moved_eq, Place.walk_append, hp.walk_of_isBlank (by decide) (by decide), core]

theorem literalPart_moved (hp : p.IsSettled) :
    p.literalPart (moved indent l) =
      (if p.InLiteral then margin else []) ++ p.literalPart x.core := by
  rw [x.moved_eq, Place.literalPart_append, hp.walk_of_isBlank (by decide) (by decide),
    Place.literalPart_of_isBlank (by decide), core]

theorem frames_walk (hp : p.IsSettled) (hline : '\n' ∉ l) :
    (p.walk l).frames = (p.walk x.core).frames := by
  have hwalk : p.walk l = (p.walk x.core).walk x.trail := by
    conv_lhs => rw [x.eq_around, Place.walk_append, x.walk_lead_core hp hline]
  rw [hwalk, Place.frames_walk_of_isBlank x.trail_isBlank]

theorem literalPart_eq (hp : p.IsSettled) (hline : '\n' ∉ l) :
    p.literalPart l = (if p.InLiteral then x.lead else []) ++ p.literalPart x.core ++
      (if (p.walk l).InLiteral then x.trail else []) := by
  have hlead := hp.walk_of_isBlank x.lead_isBlank fun h ↦ hline (x.mem_of_mem_lead h)
  have hsame : (p.walk x.core).InLiteral ↔ (p.walk l).InLiteral := by
    rw [Place.InLiteral, Place.InLiteral, x.frames_walk hp hline]
  conv_lhs => rw [x.eq_around]
  rw [Place.literalPart_append, x.walk_lead_core hp hline, Place.literalPart_append, hlead,
    Place.literalPart_of_isBlank x.lead_isBlank, Place.literalPart_of_isBlank x.trail_isBlank]
  simp only [hsame]

theorem endsFlush_iff (hline : '\n' ∉ l) : EndsFlush l ↔ x.trail = [] := by
  constructor
  · intro h
    by_contra hne
    rw [x.eq_around] at h
    exact not_endsFlush_append _ x.trail_isBlank (fun hmem ↦ hline (x.mem_of_mem_trail hmem)) hne h
  · intro htrail c hc hblank
    have hlast : l.getLast? = (x.first :: x.more).getLast? := by
      conv_lhs => rw [x.eq_append, htrail, List.append_nil, ← List.append_assoc]
      simp [List.getLast?_cons]
    rw [hlast] at hc
    exact absurd hblank (by simp [x.last_isBlank c hc])

end Inked

/-- A line that was moved leads to where it led before, if no escape takes one of its last
blanks. -/
theorem step_lineFeed_moved (hp : p.IsSettled) (hline : '\n' ∉ l)
    (hindent : Text.isBlankText l = false → indent ≤ indentation l)
    (hescape : ∀ front blanks, l = front ++ blanks → blanks ≠ [] →
      (∀ c ∈ blanks, isBlank c = true) →
      ∀ quote, (p.walk front).pending ≠ .stringEscape quote) :
    (p.walk (moved indent l)).step '\n' = (p.walk l).step '\n' := by
  cases hblank : Text.isBlankText l with
  | true =>
    have hall := forall_of_isBlankText hblank
    rw [moved_of_isBlank hall, hp.walk_of_isBlank hall hline, Place.walk_nil]
  | false =>
    obtain ⟨x⟩ := exists_inked hblank (hindent hblank)
    have hwalk : p.walk l = (p.walk x.core).walk x.trail := by
      conv_lhs => rw [x.eq_around, Place.walk_append, x.walk_lead_core hp hline]
    rw [x.walk_moved hp, hwalk]
    by_cases htrail : x.trail = []
    · rw [htrail, Place.walk_nil]
    · have hpending := hescape _ _ x.eq_around htrail x.trail_isBlank
      rw [x.walk_lead_core hp hline] at hpending
      rw [Place.walk_of_isBlank x.trail_isBlank (fun h ↦ hline (x.mem_of_mem_trail h)) htrail,
        Place.step_lineFeed, Place.step_lineFeed, Pending.pastLine_pastBlank hpending]

theorem frames_walk_moved (hp : p.IsSettled) (hline : '\n' ∉ l)
    (hindent : Text.isBlankText l = false → indent ≤ indentation l) :
    (p.walk (moved indent l)).frames = (p.walk l).frames := by
  cases hblank : Text.isBlankText l with
  | true =>
    have hall := forall_of_isBlankText hblank
    rw [moved_of_isBlank hall, hp.walk_of_isBlank hall hline, Place.walk_nil]
  | false =>
    obtain ⟨x⟩ := exists_inked hblank (hindent hblank)
    rw [x.walk_moved hp, x.frames_walk hp hline]

theorem append_cons_inj_of_isBlank {b' t' : Text} (hb : ∀ d ∈ b, isBlank d = true)
    (hb' : ∀ d ∈ b', isBlank d = true) (hc : isBlank c = false) (h : b ++ c :: t = b' ++ c :: t') :
    b = b' := by
  have htake := congrArg (List.takeWhile isBlank) h
  rwa [Text.takeWhile_append_of_stop hb (by simp [hc]),
    Text.takeWhile_append_of_stop hb' (by simp [hc])] at htake

theorem lineFeed_eq_append_iff {r r' : Text} (hline : '\n' ∉ b) :
    '\n' :: r' = b ++ '\n' :: r ↔ b = [] ∧ r' = r := by
  cases b with
  | nil => simp
  | cons c b =>
    have hc : '\n' ≠ c := by
      rintro rfl
      exact hline List.mem_cons_self
    simp [hc]

namespace Inked

variable (x : Inked indent l)

theorem margin_eq_lead_iff : margin = x.lead ↔ indent = 4 ∧ margin <+: l := by
  have hlead : x.lead <+: l := ⟨x.core ++ x.trail, by rw [← List.append_assoc, ← x.eq_around]⟩
  constructor
  · intro heq
    refine ⟨?_, heq ▸ hlead⟩
    rw [← x.length_lead, ← heq]
    rfl
  · rintro ⟨hindent, hmargin⟩
    have hlength : margin.length = x.lead.length := by rw [x.length_lead, hindent]; rfl
    rw [List.prefix_iff_eq_take.mp hmargin, List.prefix_iff_eq_take.mp hlead, hlength]

/-- If the line begins in a template literal, the blanks in front of it are in its text up to the
first character that is not blank, and that one is. -/
theorem exists_literalPart_core (hp : p.IsSettled) (hline : '\n' ∉ l) (hliteral : p.InLiteral) :
    ∃ t, p.literalPart x.core = x.inner ++ x.first :: t := by
  have hfeed : '\n' ∉ x.inner := by
    intro h
    refine hline ?_
    rw [x.eq_append]
    simp [h]
  refine ⟨(p.step x.first).literalPart x.more, ?_⟩
  rw [core, Place.literalPart_append, Place.literalPart_of_isBlank x.inner_isBlank,
    hp.walk_of_isBlank x.inner_isBlank hfeed, Place.literalPart, if_pos hliteral, if_pos hliteral]
  rfl

/-- What is put in front is compared with what is taken off, and the rest with the rest. -/
theorem append_core_eq_iff (hp : p.IsSettled) (hline : '\n' ∉ l) {rest rest' : Text} :
    (if p.InLiteral then margin else []) ++ p.literalPart x.core ++ rest' =
        (if p.InLiteral then x.lead else []) ++ p.literalPart x.core ++ rest ↔
      (p.InLiteral → margin = x.lead) ∧ rest' = rest := by
  by_cases hliteral : p.InLiteral
  · simp only [hliteral, true_imp_iff]
    constructor
    · intro h
      obtain ⟨t, ht⟩ := x.exists_literalPart_core hp hline hliteral
      have hblanks : margin ++ x.inner = x.lead ++ x.inner := by
        rw [ht] at h
        simp only [List.append_assoc, List.cons_append] at h
        rw [← List.append_assoc, ← List.append_assoc] at h
        refine append_cons_inj_of_isBlank ?_ ?_ x.first_isBlank h
        · exact List.forall_mem_append.mpr ⟨by decide, x.inner_isBlank⟩
        · exact List.forall_mem_append.mpr ⟨x.lead_isBlank, x.inner_isBlank⟩
      have hlead := List.append_cancel_right hblanks
      rw [hlead] at h
      exact ⟨hlead, List.append_cancel_left h⟩
    · rintro ⟨hlead, rfl⟩
      rw [hlead]
  · simp [hliteral]

end Inked

/-- **What moving a line does to the text of template literals.** The blanks in front of it are in
the text if the line begins in a template literal, those at its end if it ends in one. -/
theorem literalPart_moved_append_iff (hp : p.IsSettled) (hline : '\n' ∉ l)
    (hindent : Text.isBlankText l = false → indent ≤ indentation l) {rest rest' : Text}
    (hrest : (p.walk l).InLiteral → ∃ r r', rest = '\n' :: r ∧ rest' = '\n' :: r') :
    p.literalPart (moved indent l) ++ rest' = p.literalPart l ++ rest ↔
      (p.InLiteral → l = [] ∨ indent = 4 ∧ margin <+: l) ∧
        ((p.walk l).InLiteral → EndsFlush l) ∧ rest' = rest := by
  -- What is taken off the end is in front of a line feed or not in the text.
  have hlast : ∀ b : Text, '\n' ∉ b →
      (rest' = (if (p.walk l).InLiteral then b else []) ++ rest ↔
        ((p.walk l).InLiteral → b = []) ∧ rest' = rest) := by
    intro b hb
    by_cases hliteral : (p.walk l).InLiteral
    · obtain ⟨r, r', rfl, rfl⟩ := hrest hliteral
      simp [hliteral, lineFeed_eq_append_iff hb]
    · simp [hliteral]
  cases hblank : Text.isBlankText l with
  | true =>
    have hall := forall_of_isBlankText hblank
    have hwalk := hp.walk_of_isBlank hall hline
    have hflush : EndsFlush l ↔ l = [] := by
      refine ⟨fun h ↦ by_contra fun hne ↦ not_endsFlush_append [] hall hline hne h, ?_⟩
      rintro rfl
      exact fun c hc ↦ absurd hc (by simp)
    have hiff := hlast l hline
    rw [hwalk] at hiff ⊢
    rw [moved_of_isBlank hall, Place.literalPart_nil, List.nil_append,
      Place.literalPart_of_isBlank hall, hiff, hflush]
    exact ⟨fun ⟨hnil, hsame⟩ ↦ ⟨fun hliteral ↦ .inl (hnil hliteral), hnil, hsame⟩,
      fun ⟨_, hnil, hsame⟩ ↦ ⟨hnil, hsame⟩⟩
  | false =>
    obtain ⟨x⟩ := exists_inked hblank (hindent hblank)
    have hne : l ≠ [] := by
      rintro rfl
      exact absurd hblank (by decide)
    rw [x.literalPart_moved hp, x.literalPart_eq hp hline, x.endsFlush_iff hline,
      List.append_assoc _ _ rest, x.append_core_eq_iff hp hline,
      hlast x.trail fun h ↦ hline (x.mem_of_mem_trail h), x.margin_eq_lead_iff]
    simp only [hne, false_or]

end Line

/-! ## Line after line -/

/-- Whether moving a line leaves it where it is: it is empty, or four blanks take the place of four
blanks. Here a text stands for its first line. -/
def StaysPut (indent : Nat) (t : Text) : Prop :=
  (∀ c ∈ t.head?, c = '\n') ∨ indent = 4 ∧ margin <+: t

instance (indent : Nat) (t : Text) : Decidable (StaysPut indent t) :=
  inferInstanceAs (Decidable (_ ∨ _))

/-- Whether all line breaks in the text of template literals are between a line that does not end
with a blank and a line that stays put. -/
def KeepsFrom (indent : Nat) (p : Place) (t : Text) : Prop :=
  ∀ front back, t = front ++ '\n' :: back → (p.walk front).InLiteral →
    EndsFlush front ∧ StaysPut indent back

variable {p : Place}

theorem keepsFrom_iff_forall_lt {indent : Nat} :
    KeepsFrom indent p t ↔ ∀ k < t.length, t[k]? = some '\n' → (p.walk (t.take k)).InLiteral →
      EndsFlush (t.take k) ∧ StaysPut indent (t.drop (k + 1)) := by
  constructor
  · intro h k _ hfeed
    obtain ⟨hk, hget⟩ := List.getElem?_eq_some_iff.mp hfeed
    refine h (t.take k) (t.drop (k + 1)) ?_
    rw [← hget, List.getElem_cons_drop, List.take_append_drop]
  · rintro h front back rfl hliteral
    simpa using h front.length (by simp) (by simp) (by simpa using hliteral)

instance (indent : Nat) (p : Place) (t : Text) : Decidable (KeepsFrom indent p t) :=
  decidable_of_iff _ keepsFrom_iff_forall_lt.symm

/-- Whether no escape in a string literal takes one of the blanks that a line ends with. -/
def NoEscapedEnds (p : Place) (t : Text) : Prop :=
  ∀ front blanks back, t = front ++ blanks ++ '\n' :: back → blanks ≠ [] → '\n' ∉ blanks →
    (∀ c ∈ blanks, isBlank c = true) → ∀ quote, (p.walk front).pending ≠ .stringEscape quote

section Lines

variable {indent : Nat} {p : Place} {l t : Text}

theorem append_lineFeed_eq_iff (hline : '\n' ∉ l) {front back : Text} :
    l ++ '\n' :: t = front ++ '\n' :: back ↔
      (front = l ∧ back = t) ∨ ∃ more, front = l ++ '\n' :: more ∧ t = more ++ '\n' :: back := by
  constructor
  · intro h
    rcases List.append_eq_append_iff.mp h with ⟨mid, rfl, hmid⟩ | ⟨mid, rfl, hmid⟩
    · cases mid with
      | nil =>
        obtain ⟨-, rfl⟩ := List.cons.inj hmid
        exact .inl ⟨List.append_nil l, rfl⟩
      | cons c mid =>
        obtain ⟨rfl, rfl⟩ := List.cons.inj hmid
        exact .inr ⟨mid, rfl, rfl⟩
    · cases mid with
      | nil =>
        obtain ⟨-, rfl⟩ := List.cons.inj hmid
        exact .inl ⟨(List.append_nil front).symm, rfl⟩
      | cons c mid =>
        obtain ⟨rfl, -⟩ := List.cons.inj hmid
        exact absurd (by simp) hline
  · rintro (⟨rfl, rfl⟩ | ⟨more, rfl, rfl⟩)
    · rfl
    · simp

theorem endsFlush_append_lineFeed (l t : Text) : EndsFlush (l ++ '\n' :: t) ↔ EndsFlush t := by
  cases t with
  | nil => simp [EndsFlush]
  | cons c t => simp [EndsFlush, List.getLast?_cons]

theorem keepsFrom_of_notMem (h : '\n' ∉ t) : KeepsFrom indent p t := by
  rintro front back rfl
  exact absurd (by simp) h

theorem keepsFrom_append_lineFeed (hline : '\n' ∉ l) :
    KeepsFrom indent p (l ++ '\n' :: t) ↔
      ((p.walk l).InLiteral → EndsFlush l ∧ StaysPut indent t) ∧
        KeepsFrom indent ((p.walk l).step '\n') t := by
  constructor
  · intro h
    refine ⟨h l t rfl, fun front back heq hliteral ↦ ?_⟩
    have hkept := h (l ++ '\n' :: front) back (by rw [heq]; simp) (by
      rwa [Place.walk_append, Place.walk_cons])
    rwa [endsFlush_append_lineFeed] at hkept
  · rintro ⟨hfirst, hmore⟩ front back heq hliteral
    rcases (append_lineFeed_eq_iff hline).mp heq with ⟨rfl, rfl⟩ | ⟨more, rfl, rfl⟩
    · exact hfirst hliteral
    · rw [endsFlush_append_lineFeed]
      refine hmore more back rfl ?_
      rwa [Place.walk_append, Place.walk_cons] at hliteral

theorem margin_isPrefix_append_iff {rest : Text} (hrest : ∀ c ∈ rest.head?, c = '\n') :
    margin <+: l ++ rest ↔ margin <+: l := by
  refine ⟨fun h ↦ ?_, fun h ↦ h.trans (List.prefix_append l rest)⟩
  rcases List.prefix_or_prefix_of_prefix h (List.prefix_append l rest) with hmargin | ⟨more, hmore⟩
  · exact hmargin
  · -- Whatever of the margin is not in the line would begin with a line feed.
    cases more with
    | nil => rw [← hmore, List.append_nil]
    | cons c more =>
      rw [← hmore, List.prefix_append_right_inj] at h
      obtain ⟨t, rfl⟩ := h
      have hmem : c ∈ margin := by simp [← hmore]
      rw [hrest c rfl] at hmem
      exact absurd hmem (by decide)

/-- Whether a line stays put depends on the line alone. -/
theorem staysPut_append_iff (hline : '\n' ∉ l) {rest : Text}
    (hrest : ∀ c ∈ rest.head?, c = '\n') :
    StaysPut indent (l ++ rest) ↔ l = [] ∨ indent = 4 ∧ margin <+: l := by
  rw [StaysPut, margin_isPrefix_append_iff hrest]
  refine or_congr_left ?_
  cases l with
  | nil => simpa using hrest
  | cons c l =>
    have hc : c ≠ '\n' := by
      rintro rfl
      exact hline List.mem_cons_self
    simp [hc]

theorem noEscapedEnds_of_notMem (h : '\\' ∉ t) : NoEscapedEnds .start t := by
  rintro front blanks back rfl - - - quote
  rcases List.eq_nil_or_concat front with rfl | ⟨init, c, rfl⟩
  · simp [Place.start]
  · have hc : c ≠ '\\' := by
      rintro rfl
      exact h (by simp)
    rw [List.concat_eq_append, Place.walk_append]
    exact fun hpending ↦ hc ((Place.after_step _ c).escape quote hpending)

theorem NoEscapedEnds.line (h : NoEscapedEnds p (l ++ '\n' :: t)) (hline : '\n' ∉ l) :
    ∀ front blanks, l = front ++ blanks → blanks ≠ [] → (∀ c ∈ blanks, isBlank c = true) →
      ∀ quote, (p.walk front).pending ≠ .stringEscape quote := by
  rintro front blanks rfl hne hblanks
  exact h front blanks t rfl hne (fun hmem ↦ hline (List.mem_append_right front hmem)) hblanks

theorem NoEscapedEnds.rest (h : NoEscapedEnds p (l ++ '\n' :: t)) :
    NoEscapedEnds ((p.walk l).step '\n') t := by
  rintro front blanks back rfl hne hline hblanks quote
  have hpending := h (l ++ '\n' :: front) blanks back (by simp) hne hline hblanks quote
  rwa [Place.walk_append, Place.walk_cons] at hpending

/-- **What moving lines does to the text of template literals.** The induction is over the lines,
and the invariant is that both scripts are at the same place where a line begins. -/
theorem literalPart_moved_lines_iff (hne : ls ≠ []) (hline : ∀ l ∈ ls, '\n' ∉ l)
    (hindent : ∀ l ∈ ls, Text.isBlankText l = false → indent ≤ indentation l) (hp : p.IsSettled)
    (hescape : NoEscapedEnds p (Text.unlines ls))
    (hclosed : ¬ (p.walk (Text.unlines ls)).InLiteral) :
    (p.walk (Text.unlines (ls.map (moved indent)))).frames = (p.walk (Text.unlines ls)).frames ∧
      (p.literalPart (Text.unlines (ls.map (moved indent))) = p.literalPart (Text.unlines ls) ↔
        (p.InLiteral → StaysPut indent (Text.unlines ls)) ∧
          KeepsFrom indent p (Text.unlines ls)) := by
  induction ls generalizing p with
  | nil => exact absurd rfl hne
  | cons l rest ih =>
    obtain ⟨hl, hrest⟩ := List.forall_mem_cons.mp hline
    obtain ⟨hindentl, hindentrest⟩ := List.forall_mem_cons.mp hindent
    by_cases hnil : rest = []
    · subst hnil
      change (p.walk (moved indent l)).frames = (p.walk l).frames ∧
        (p.literalPart (moved indent l) = p.literalPart l ↔
          (p.InLiteral → StaysPut indent l) ∧ KeepsFrom indent p l)
      have hkeeps : KeepsFrom indent p l := keepsFrom_of_notMem hl
      have hput : StaysPut indent (l ++ []) ↔ l = [] ∨ indent = 4 ∧ margin <+: l :=
        staysPut_append_iff hl (by simp)
      have hclosed : ¬ (p.walk l).InLiteral := hclosed
      rw [List.append_nil] at hput
      refine ⟨frames_walk_moved hp hl hindentl, ?_⟩
      rw [← List.append_nil (p.literalPart (moved indent l)), ← List.append_nil (p.literalPart l),
        literalPart_moved_append_iff hp hl hindentl fun hliteral ↦ absurd hliteral hclosed, hput]
      simp [hclosed, hkeeps]
    · rw [List.map_cons, Text.unlines_cons l hnil, Text.unlines_cons _ (by simpa using hnil)] at *
      have hstep := step_lineFeed_moved hp hl hindentl (hescape.line hl)
      have hframes := frames_walk_moved hp hl hindentl
      have hsame : (p.walk (moved indent l)).InLiteral ↔ (p.walk l).InLiteral := by
        rw [Place.InLiteral, hframes, Place.InLiteral]
      have hnext : ((p.walk l).step '\n').InLiteral ↔ (p.walk l).InLiteral := by
        rw [Place.InLiteral, Place.frames_step_lineFeed, Place.InLiteral]
      rw [Place.walk_append, Place.walk_cons] at hclosed
      obtain ⟨ihframes, ihiff⟩ := ih hnil hrest hindentrest (Place.isSettled_step_lineFeed _)
        hescape.rest hclosed
      simp only [Place.walk_append, Place.walk_cons, Place.literalPart_append, Place.literalPart,
        hstep, hsame]
      refine ⟨ihframes, ?_⟩
      rw [literalPart_moved_append_iff hp hl hindentl fun hliteral ↦ by simp [hliteral],
        List.append_cancel_left_eq, ihiff, hnext, staysPut_append_iff hl (by simp),
        keepsFrom_append_lineFeed hl, imp_and, and_assoc]

end Lines

/-! ## Blank lines at either end -/

theorem walk_start_of_isBlank (h : ∀ c ∈ b, isBlank c = true) : Place.start.walk b = .start := by
  induction b with
  | nil => rfl
  | cons c b ih =>
    obtain ⟨hc, hb⟩ := List.forall_mem_cons.mp h
    have hstep : Place.start.step c = .start := Place.stepOpen_of_isBlank hc [] .nothing
    rw [Place.walk_cons, hstep, ih hb]

/-- Blanks around a script that does not end in a template literal are in none. -/
theorem literalPart_around {front last : Text} (t : Text) (hfront : ∀ c ∈ front, isBlank c = true)
    (hlast : ∀ c ∈ last, isBlank c = true)
    (hclosed : ¬ (Place.start.walk (front ++ t ++ last)).InLiteral) :
    Place.start.literalPart (front ++ t ++ last) = Place.start.literalPart t := by
  have hstart : ¬ Place.start.InLiteral := by decide
  have hend : ¬ (Place.start.walk t).InLiteral := by
    rwa [Place.walk_append, Place.walk_append, walk_start_of_isBlank hfront, Place.InLiteral,
      Place.frames_walk_of_isBlank hlast] at hclosed
  rw [Place.literalPart_append, Place.literalPart_append, Place.walk_append,
    walk_start_of_isBlank hfront, Place.literalPart_of_isBlank hfront, if_neg hstart,
    Place.literalPart_of_isBlank hlast, if_neg hend, List.nil_append, List.append_nil]

theorem isBlank_unlines (h : ∀ l ∈ ls, ∀ c ∈ l, isBlank c = true) :
    ∀ c ∈ Text.unlines ls, isBlank c = true := by
  intro c hc
  rcases Text.mem_of_mem_join hc with hfeed | ⟨l, hl, hmem⟩
  · rw [List.mem_singleton.mp hfeed]
    decide
  · exact h l hl c hmem

theorem exists_unlines_around {front mid last : List Text}
    (hfront : ∀ l ∈ front, ∀ c ∈ l, isBlank c = true)
    (hlast : ∀ l ∈ last, ∀ c ∈ l, isBlank c = true) (hmid : mid ≠ []) :
    ∃ before after : Text, Text.unlines (front ++ mid ++ last) =
        before ++ Text.unlines mid ++ after ∧
      (∀ c ∈ before, isBlank c = true) ∧ ∀ c ∈ after, isBlank c = true := by
  have hfeed : isBlank '\n' = true := by decide
  obtain ⟨before, hbefore, hblank⟩ : ∃ before : Text,
      Text.unlines (front ++ mid) = before ++ Text.unlines mid ∧
        ∀ c ∈ before, isBlank c = true := by
    by_cases hnil : front = []
    · exact ⟨[], by rw [hnil]; rfl, by simp⟩
    · refine ⟨Text.unlines front ++ ['\n'], by rw [Text.unlines_append hnil hmid]; simp, ?_⟩
      exact List.forall_mem_append.mpr ⟨isBlank_unlines hfront, by simpa using hfeed⟩
  by_cases hnil : last = []
  · refine ⟨before, [], ?_, hblank, by simp⟩
    rw [hnil, List.append_nil, List.append_nil, hbefore]
  · refine ⟨before, '\n' :: Text.unlines last, ?_, hblank, ?_⟩
    · rw [Text.unlines_append (List.append_ne_nil_of_right_ne_nil front hmid) hnil, hbefore]
    · exact List.forall_mem_cons.mpr ⟨hfeed, isBlank_unlines hlast⟩

theorem exists_trimLines_around (ls : List Text) :
    ∃ front last, ls = front ++ trimLines ls ++ last ∧
      (∀ l ∈ front, Text.isBlankText l = true) ∧ ∀ l ∈ last, Text.isBlankText l = true := by
  have hfront := List.takeWhile_append_dropWhile (p := Text.isBlankText) (l := ls)
  have hlast := congrArg List.reverse (List.takeWhile_append_dropWhile (p := Text.isBlankText)
    (l := (ls.dropWhile Text.isBlankText).reverse))
  rw [List.reverse_append, List.reverse_reverse] at hlast
  refine ⟨ls.takeWhile Text.isBlankText,
    ((ls.dropWhile Text.isBlankText).reverse.takeWhile Text.isBlankText).reverse, ?_,
    fun l hl ↦ List.mem_takeWhile_imp hl,
    fun l hl ↦ List.mem_takeWhile_imp (List.mem_reverse.mp hl)⟩
  rw [List.append_assoc, trimLines, hlast, hfront]

theorem commonIndentation_trimLines (ls : List Text) :
    commonIndentation (trimLines ls) = commonIndentation ls := by
  obtain ⟨front, last, hls, hfront, hlast⟩ := exists_trimLines_around ls
  have hnone : ∀ blanks : List Text, (∀ l ∈ blanks, Text.isBlankText l = true) →
      blanks.filter (!Text.isBlankText ·) = [] := by
    intro blanks h
    rw [List.filter_eq_nil_iff]
    exact fun l hl ↦ by simp [h l hl]
  conv_rhs => rw [hls]
  rw [commonIndentation, commonIndentation, List.filter_append, List.filter_append, hnone _ hfront,
    hnone _ hlast, List.nil_append, List.append_nil]

/-- The lines of a script at the level inside a function. -/
def movedLines (t : Text) : List Text :=
  (trimLines (Text.lines t)).map (moved (commonIndentation (Text.lines t)))

theorem bodyLines_eq (names : List Text) (body : Text) :
    bodyLines names body = movedLines (dereference names body) := by
  rw [movedLines, ← commonIndentation_trimLines]
  exact List.map_congr_left fun _ _ ↦ rfl

/-- Blank lines around others add nothing to the text of template literals. -/
theorem literalPart_unlines_around {front mid last : List Text}
    (hfront : ∀ l ∈ front, ∀ c ∈ l, isBlank c = true)
    (hlast : ∀ l ∈ last, ∀ c ∈ l, isBlank c = true)
    (hclosed : ¬ (Place.start.walk (Text.unlines (front ++ mid ++ last))).InLiteral) :
    (Place.start.walk (Text.unlines mid)).frames =
        (Place.start.walk (Text.unlines (front ++ mid ++ last))).frames ∧
      Place.start.literalPart (Text.unlines mid) =
        Place.start.literalPart (Text.unlines (front ++ mid ++ last)) := by
  by_cases hmid : mid = []
  · subst hmid
    have hblank : ∀ c ∈ Text.unlines (front ++ [] ++ last), isBlank c = true := by
      refine isBlank_unlines (List.forall_mem_append.mpr ⟨?_, hlast⟩)
      rwa [List.append_nil]
    rw [walk_start_of_isBlank hblank, Place.literalPart_of_isBlank hblank, if_neg (by decide)]
    exact ⟨rfl, rfl⟩
  · obtain ⟨before, after, hsplit, hbefore, hafter⟩ := exists_unlines_around hfront hlast hmid
    rw [hsplit] at hclosed ⊢
    rw [literalPart_around _ hbefore hafter hclosed, Place.walk_append, Place.walk_append,
      walk_start_of_isBlank hbefore, Place.frames_walk_of_isBlank hafter]
    exact ⟨rfl, rfl⟩

/-- **When moving the lines of a script keeps the text of its template literals.** -/
theorem literalPart_movedLines_iff (hclosed : (Place.start.walk t).frames = [])
    (hescape : NoEscapedEnds .start t) :
    (Place.start.walk (Text.unlines (movedLines t))).frames = [] ∧
      (Place.start.literalPart (Text.unlines (movedLines t)) = Place.start.literalPart t ↔
        KeepsFrom (commonIndentation (Text.lines t)) .start t) := by
  have hstart : ¬ Place.start.InLiteral := by decide
  have hsettled : Place.start.IsSettled := rfl
  have hend : ¬ (Place.start.walk t).InLiteral := by simp [Place.InLiteral, hclosed]
  have hlines := literalPart_moved_lines_iff (p := .start) (Text.lines_ne_nil t)
    (Text.notMem_of_mem_lines t) (fun l hl hblank ↦ commonIndentation_le hl hblank) hsettled
  rw [Text.unlines_lines] at hlines
  obtain ⟨hframes, hiff⟩ := hlines hescape hend
  -- The blank lines at either end become empty lines, and are left out.
  obtain ⟨front, last, hls, hfront, hlast⟩ := exists_trimLines_around (Text.lines t)
  have hblank : ∀ blanks : List Text, (∀ l ∈ blanks, Text.isBlankText l = true) →
      ∀ l ∈ blanks.map (moved (commonIndentation (Text.lines t))), ∀ c ∈ l, isBlank c = true := by
    intro blanks h l hl
    obtain ⟨l', hl', rfl⟩ := List.mem_map.mp hl
    rw [moved_of_isBlank (forall_of_isBlankText (h l' hl'))]
    simp
  have hmap : (Text.lines t).map (moved (commonIndentation (Text.lines t))) =
      front.map (moved (commonIndentation (Text.lines t))) ++ movedLines t ++
        last.map (moved (commonIndentation (Text.lines t))) := by
    refine (congrArg (List.map (moved (commonIndentation (Text.lines t)))) hls).trans ?_
    rw [List.map_append, List.map_append, movedLines]
  rw [hmap] at hframes hiff
  obtain ⟨hsame, hpart⟩ := literalPart_unlines_around (hblank front hfront) (hblank last hlast)
    (by rwa [Place.InLiteral, hframes])
  rw [hsame, hframes, hpart, hiff]
  simp [hclosed, hstart]

/-! ## Scripts that are read alike -/

namespace Alike

variable {p : Place} {t u : Text}

theorem endsFlush (h : Alike p t u) (hflush : EndsFlush t) : EndsFlush u := by
  intro c hlast hc
  obtain ⟨front, rfl⟩ := List.getLast?_eq_some_iff.mp hlast
  obtain ⟨front', back', rfl, -, hback⟩ := h.symm.exists_append_cons hc
  rw [hback.eq_nil] at hflush
  exact hflush c (by simp) hc

theorem staysPut {indent : Nat} (h : Alike p t u) (hput : StaysPut indent t) :
    StaysPut indent u := by
  have hmargin : ∀ c ∈ margin, isBlank c = true := by decide
  refine hput.imp (fun hhead ↦ ?_) fun ⟨hindent, hbegins⟩ ↦
    ⟨hindent, h.isPrefix_of_isBlank hmargin hbegins⟩
  cases h with
  | done => exact hhead
  | char => exact hhead
  | word hw =>
    obtain ⟨d, w, rfl⟩ := List.exists_cons_of_ne_nil hw.1
    have hd := hw.2 d List.mem_cons_self
    rw [hhead d rfl] at hd
    exact absurd hd (by decide)

theorem keepsFrom {indent : Nat} (h : Alike p t u) (hkeeps : KeepsFrom indent p t) :
    KeepsFrom indent p u := by
  rintro front back rfl hliteral
  obtain ⟨front', back', rfl, hfront, hback⟩ := h.symm.exists_append_cons (by decide)
  rw [← hfront.walk_eq] at hliteral
  obtain ⟨hflush, hput⟩ := hkeeps front' back' rfl hliteral
  exact ⟨hfront.symm.endsFlush hflush, hback.symm.staysPut hput⟩

theorem noEscapedEnds (h : Alike p t u) (hescape : NoEscapedEnds p t) : NoEscapedEnds p u := by
  rintro front blanks back rfl hne hline hblanks
  obtain ⟨b, bs, rfl⟩ := List.exists_cons_of_ne_nil hne
  obtain ⟨hb, hbs⟩ := List.forall_mem_cons.mp hblanks
  rw [List.append_assoc] at h
  obtain ⟨front', rest, rfl, hfront, hrest⟩ := h.symm.exists_append_cons hb
  -- The other blanks and the line feed come next in the other text, too.
  obtain ⟨back', rfl⟩ : bs ++ ['\n'] <+: rest := by
    refine hrest.isPrefix_of_isBlank (List.forall_mem_append.mpr ⟨hbs, by decide⟩) ⟨back, ?_⟩
    simp
  rw [← hfront.walk_eq]
  exact hescape front' (b :: bs) back' (by simp) hne hline hblanks

theorem indentation_le (h : Alike p t u) : indentation t ≤ indentation u := by
  have hblank : ∀ c ∈ t.takeWhile isBlank, isBlank c = true := fun c hc ↦
    List.mem_takeWhile_imp hc
  obtain ⟨more, rfl⟩ := h.isPrefix_of_isBlank hblank (List.takeWhile_prefix _)
  rw [indentation, indentation, List.takeWhile_append_of_pos hblank, List.length_append]
  exact Nat.le_add_right _ _

theorem indentation_eq (h : Alike p t u) : indentation u = indentation t :=
  Nat.le_antisymm h.symm.indentation_le h.indentation_le

/-- Texts that are read alike have as many lines, and these are read alike in turn. -/
theorem exists_forall₂_lines (hne : ls ≠ []) (hline : ∀ l ∈ ls, '\n' ∉ l)
    (h : Alike p (Text.unlines ls) u) :
    ∃ ls', ls' ≠ [] ∧ u = Text.unlines ls' ∧ (∀ l ∈ ls', '\n' ∉ l) ∧
      List.Forall₂ (fun l l' ↦ ∃ q, Alike q l l') ls ls' := by
  have hfeed : isBlank '\n' = true := by decide
  induction ls generalizing p u with
  | nil => exact absurd rfl hne
  | cons l rest ih =>
    obtain ⟨hl, hrest⟩ := List.forall_mem_cons.mp hline
    by_cases hnil : rest = []
    · subst hnil
      refine ⟨[u], List.cons_ne_nil _ _, rfl, ?_, .cons ⟨p, h⟩ .nil⟩
      simpa using fun hmem ↦ hl (h.symm.mem_of_isBlank hfeed hmem)
    · rw [Text.unlines_cons l hnil] at h
      obtain ⟨l', rest', rfl, hfirst, hafter⟩ := h.exists_append_cons hfeed
      obtain ⟨ls', hne', rfl, hline', hpairs⟩ := ih hnil hrest hafter
      refine ⟨l' :: ls', List.cons_ne_nil _ _, (Text.unlines_cons l' hne').symm, ?_,
        .cons ⟨p, hfirst⟩ hpairs⟩
      exact List.forall_mem_cons.mpr ⟨fun hmem ↦ hl (hfirst.symm.mem_of_isBlank hfeed hmem), hline'⟩

theorem commonIndentation_eq (h : Alike p t u) :
    commonIndentation (Text.lines u) = commonIndentation (Text.lines t) := by
  have hlines : Alike p (Text.unlines (Text.lines t)) u := by rwa [Text.unlines_lines]
  obtain ⟨ls, hne, rfl, hline, hpairs⟩ :=
    hlines.exists_forall₂_lines (Text.lines_ne_nil t) (Text.notMem_of_mem_lines t)
  have hinked : ∀ {ls ls' : List Text}, List.Forall₂ (fun l l' ↦ ∃ q, Alike q l l') ls ls' →
      (ls'.filter (!Text.isBlankText ·)).map indentation =
        (ls.filter (!Text.isBlankText ·)).map indentation := by
    intro ls ls' hpairs
    induction hpairs with
    | nil => rfl
    | cons hfirst _ ih =>
      obtain ⟨q, hq⟩ := hfirst
      rw [List.filter_cons, List.filter_cons, hq.isBlankText_eq]
      split_ifs
      · rw [List.map_cons, List.map_cons, hq.indentation_eq, ih]
      · exact ih
  rw [Text.lines_unlines hne hline, commonIndentation, commonIndentation, hinked hpairs]

end Alike

/-! ## Functions -/

namespace Place

theorem literalPart_of_nil (hp : p.frames = []) (ht : '\x60' ∉ t) : p.literalPart t = [] := by
  induction t generalizing p with
  | nil => rfl
  | cons c t ih =>
    obtain ⟨hc, ht⟩ := not_or.mp (List.mem_cons.not.mp ht)
    rw [literalPart, if_neg (by simp [InLiteral, hp]), ih (frames_step_of_nil hp (Ne.symm hc)) ht]
    rfl

theorem Outside.step_lineFeed (h : p.Outside) : p.step '\n' = .start := by
  obtain ⟨frames, pending⟩ := p
  obtain ⟨rfl, hpending⟩ := h
  rcases hpending with rfl | rfl | rfl <;> decide

end Place

theorem IsQuiet.isIdle (h : IsQuiet c) : IsIdle c :=
  ⟨h.ne _ (by decide) (by decide), h.ne _ (by decide) (by decide), h.ne _ (by decide) (by decide),
    h.ne _ (by decide) (by decide), h.ne _ (by decide) (by decide), h.ne _ (by decide) (by decide),
    h.ne _ (by decide) (by decide)⟩

theorem literalPart_unlines_concat {last : Text}
    (hclosed : (Place.start.walk (Text.unlines ls)).frames = []) (hlast : '\x60' ∉ last) :
    Place.start.literalPart (Text.unlines (ls ++ [last])) =
      Place.start.literalPart (Text.unlines ls) := by
  by_cases hnil : ls = []
  · subst hnil
    exact Place.literalPart_of_nil rfl hlast
  · rw [Text.unlines_append hnil (List.cons_ne_nil _ _), Place.literalPart_append,
      Place.literalPart_of_nil hclosed (by simpa [Text.unlines, Text.join] using hlast),
      List.append_nil]

/-- The text of the template literals of a function is that of its parameters and that of the lines
of its body, as they are emitted. -/
theorem literalPart_functionDeclaration {f : Function} (hname : Text.IsName f.name)
    (hparameters : (Place.start.walk f.parameters).Outside) {names : List Text}
    (hbody : (Place.start.walk (Text.unlines (bodyLines names f.body))).frames = []) :
    Place.start.literalPart (Text.unlines (functionDeclaration names f)) =
      Place.start.literalPart f.parameters ++
        Place.start.literalPart (Text.unlines (bodyLines names f.body)) := by
  -- The first line is idle around the parameters.
  have hfront : ∀ c ∈ line 1 "const " ++ f.name ++ (" = (" : Text), IsIdle c := by
    have hconst : ∀ c ∈ line 1 "const ", IsIdle c := by decide
    have hopen : ∀ c ∈ (" = (" : Text), IsIdle c := by decide
    exact List.forall_mem_append.mpr ⟨List.forall_mem_append.mpr
      ⟨hconst, fun c hc ↦ IsQuiet.isIdle (.inl (hname.2 c hc))⟩, hopen⟩
  have harrow : ∀ c ∈ (") => \x7b" : Text), IsIdle c := by decide
  have hliteral : ∀ t : Text, (∀ c ∈ t, IsIdle c) → '\x60' ∉ t :=
    fun t h hmem ↦ absurd (h _ hmem) (by decide)
  have hclose : '\x60' ∉ line 1 "\x7d;" := by decide
  have hdeclaration : Text.unlines (functionDeclaration names f) =
      (line 1 "const " ++ f.name ++ (" = (" : Text)) ++ f.parameters ++ (") => \x7b" : Text) ++
        '\n' :: Text.unlines (bodyLines names f.body ++ [line 1 "\x7d;"]) := by
    have hne : ("const " : Text) ≠ [] := List.cons_ne_nil _ _
    rw [functionDeclaration, List.cons_append, Text.unlines_cons _ (by simp), List.append_assoc,
      List.append_assoc, List.append_assoc, line_append 1 hne]
    simp only [List.append_assoc]
  rw [hdeclaration]
  generalize line 1 "const " ++ f.name ++ (" = (" : Text) = front at hfront
  generalize (") => \x7b" : Text) = arrow at harrow
  have hafter : ((Place.start.walk f.parameters).walk arrow).Outside :=
    (outside_walk_iff harrow (Place.sound_walk_start _)).mpr hparameters
  rw [Place.literalPart_append, Place.literalPart_append, Place.literalPart_append,
    Place.walk_append, Place.walk_append, Place.walk_append, walk_start_of_idle hfront,
    Place.literalPart_of_nil rfl (hliteral _ hfront), List.nil_append,
    Place.literalPart_of_nil hparameters.1 (hliteral _ harrow), List.append_nil, Place.literalPart,
    if_neg (by simp [Place.InLiteral, hafter.1]), List.nil_append, hafter.step_lineFeed,
    literalPart_unlines_concat hbody hclose]

/-- **When the text of template literals gets through to the function.** A line break in the text
must be between a line that does not end with a blank and a line that stays put. -/
theorem literal_text_kept_iff {E : Type} {file : Text} {locator : Source.Locator E}
    {parts : FrontMatter.Extracted} {c : Component}
    (hread : (Component.read file locator parts).component = .ok c) {f : Function}
    (hf : f ∈ c.functions) (hparameters : (Place.start.walk f.parameters).Outside)
    (hclosed : (Place.start.walk f.body).frames = []) (hescape : NoEscapedEnds .start f.body)
    (names : List Text) :
    literalText [] (Text.unlines (functionDeclaration names f)) =
        literalText [] f.parameters ++ literalText [] f.body ↔
      KeepsFrom (commonIndentation (Text.lines f.body)) .start f.body := by
  have hname := (Component.wellNamed_of_read hread).functions f hf
  have halike := alike_dereference names f.body
  have hclosed' : (Place.start.walk (dereference names f.body)).frames = [] := by
    rwa [halike.walk_eq]
  obtain ⟨hframes, hiff⟩ := literalPart_movedLines_iff hclosed' (halike.noEscapedEnds hescape)
  rw [← bodyLines_eq] at hframes hiff
  rw [literalText_nil, literalText_nil, literalText_nil,
    literalPart_functionDeclaration hname hparameters hframes, List.append_cancel_left_eq,
    ← halike.literalPart_eq, hiff, halike.commonIndentation_eq]
  exact ⟨halike.symm.keepsFrom, halike.keepsFrom⟩

/-- A body with a template literal whose lines are four blanks from the margin. -/
def flushBody : Text := "    return \x60a $\x7b$x\x7d\n\n    b\x60"

/-- A source with a function that has this body. -/
def flushSource : Text := "$x = 1\n$f = (a) => \x7b\n" ++ flushBody ++ "\n\x7d"

theorem flush_literal_text_kept :
    ∃ c f, (Component.read "page.mtm" (Source.noLookup : Source.Locator Empty)
        (FrontMatter.extract flushSource)).component = .ok c ∧ f ∈ c.functions ∧
      (Place.start.walk f.parameters).Outside ∧ (Place.start.walk f.body).frames = [] ∧
      NoEscapedEnds .start f.body ∧
      literalText [] (Text.unlines (functionDeclaration c.variableNames f)) =
        literalText [] f.parameters ++ literalText [] f.body := by
  have hread : (Component.read "page.mtm" (Source.noLookup : Source.Locator Empty)
      (FrontMatter.extract flushSource)).component =
        .ok (Component.ofSource "page.mtm" flushSource) := rfl
  have hf : (⟨2, "f", "a", flushBody⟩ : Function) ∈
      (Component.ofSource "page.mtm" flushSource).functions := by decide +kernel
  have hparameters : (Place.start.walk ("a" : Text)).Outside := by decide
  have hclosed : (Place.start.walk flushBody).frames = [] := by decide
  have hescape : NoEscapedEnds .start flushBody := noEscapedEnds_of_notMem (by decide)
  have hkeeps : KeepsFrom (commonIndentation (Text.lines flushBody)) .start flushBody := by
    decide +kernel
  exact ⟨_, _, hread, hf, hparameters, hclosed, hescape,
    (literal_text_kept_iff hread hf hparameters hclosed hescape _).mpr hkeeps⟩

/-- A line of a template literal that is two blanks from the margin gets two more. -/
theorem literal_line_indented_further :
    ∃ f ∈ (Component.ofSource "page.mtm"
        "$f = () => \x7b\n  return \x60a\n  b\x60\n\x7d").functions,
      literalText [] f.body = "a\n  b\x60" ∧
      literalText [] (Text.unlines (functionDeclaration [] f)) = "a\n    b\x60" := by
  refine ⟨⟨1, "f", "", "  return \x60a\n  b\x60"⟩, by decide +kernel, ?_⟩
  rw [literalText_nil, literalText_nil]
  exact ⟨by decide, by decide +kernel⟩

end Script

end PageCompiler
