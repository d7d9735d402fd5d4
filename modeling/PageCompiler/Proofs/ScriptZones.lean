import Mathlib.Data.List.Basic
import PageCompiler.Proofs.Texts
import PageCompiler.Script.Reference

/-!
# Zones of a script

Which characters of a script are code and which are the inert text of string literals, remarks and
template literals. The zones are given by a grammar that nests where scripts nest: the text of a
template literal holds code between braces, and that code holds braces and template literals again.

## Nesting without a stack

The grammar has no frames. Code inside braces is derived as a whole before the brace that closes it,
and whatever has no end runs to the end of the script, which `Ending` records: a part that is not
closed can only be the last one, in each part around it as well.

The lexer does keep frames. The function `marks` is the lexer's own account of the zones, and the
link is one lemma for each rule of the grammar: over derived text, with the frames around it, the
lexer marks what the rule says and comes out with the same frames. The zones of a script therefore
exist and are unique, and are those that the lexer goes by.
-/

namespace PageCompiler

variable {t : Text}

namespace Script

/-! ## The grammar -/

/-- How a character of a script is read. -/
inductive Zone where
  | code
  /-- As text that stays what it is. -/
  | inert
  deriving DecidableEq, Repr

/-- A text with the zone of each character. -/
abbrev Marked := List (Char × Zone)

def Marked.text (m : Marked) : Text := m.map Prod.fst

/-- A text that lies in one zone. -/
def within (zone : Zone) (t : Text) : Marked := t.map (·, zone)

/-- Whether something is closed, or runs to the end of the script. -/
inductive Ending where
  | closed
  /-- It has no end of its own. -/
  | unclosed
  deriving DecidableEq, Repr

/-- `StringTail quote t ending`: the text of a string literal after its opening quote. -/
inductive StringTail (quote : Char) : Text → Ending → Prop
  | quote : StringTail quote [quote] .closed
  | lineFeed : StringTail quote ['\n'] .closed
  | missing : StringTail quote [] .unclosed
  | missingEscape : StringTail quote ['\\'] .unclosed
  | escape (c : Char) {t : Text} {e : Ending} (after : StringTail quote t e) :
    StringTail quote ('\\' :: c :: t) e
  | char {c : Char} {t : Text} {e : Ending} (hescape : c ≠ '\\') (hquote : c ≠ quote)
    (hfeed : c ≠ '\n') (after : StringTail quote t e) : StringTail quote (c :: t) e

/-- The parts of the grammar. -/
inductive Part where
  /-- Code, inside braces that it has to leave closed or not. -/
  | code (nested : Bool)
  /-- The text of a template literal after its opening sign. -/
  | literal

/-- Whether a character of code begins nothing else. Braces matter only inside braces. -/
def IsPlain (nested : Bool) (c : Char) : Prop :=
  c ≠ '\'' ∧ c ≠ '"' ∧ c ≠ '\x60' ∧ (nested = true → c ≠ '\x7b' ∧ c ≠ '\x7d')

/-- Whether a character does not begin a remark with what follows it. -/
def NoRemark (c : Char) (cs : Text) : Prop := c = '/' → ∀ d ∈ cs.head?, d ≠ '/' ∧ d ≠ '*'

/-- `Zoned part m ending`: the marked text `m` is of the given part of the grammar. -/
inductive Zoned : Part → Marked → Ending → Prop
  | done {nested : Bool} : Zoned (.code nested) [] .closed
  | plain {nested : Bool} {c : Char} {m : Marked} {e : Ending} (hplain : IsPlain nested c)
    (hremark : NoRemark c m.text)
    (after : Zoned (.code nested) m e) : Zoned (.code nested) ((c, .code) :: m) e
  | string {nested : Bool} {quote : Char} {t : Text} {m : Marked} {e : Ending}
    (hquote : quote = '\'' ∨ quote = '"') (tail : StringTail quote t .closed)
    (after : Zoned (.code nested) m e) :
    Zoned (.code nested) (within .inert (quote :: t) ++ m) e
  | openString {nested : Bool} {quote : Char} {t : Text} (hquote : quote = '\'' ∨ quote = '"')
    (tail : StringTail quote t .unclosed) :
    Zoned (.code nested) (within .inert (quote :: t)) .unclosed
  | lineRemark {nested : Bool} {t : Text} {m : Marked} {e : Ending} (hline : '\n' ∉ t)
    (after : Zoned (.code nested) (('\n', .code) :: m) e) :
    Zoned (.code nested) (within .inert ('/' :: '/' :: t) ++ ('\n', .code) :: m) e
  | lastRemark {nested : Bool} {t : Text} (hline : '\n' ∉ t) :
    Zoned (.code nested) (within .inert ('/' :: '/' :: t)) .unclosed
  | remark {nested : Bool} {t : Text} {m : Marked} {e : Ending} (hinside : ¬ ['*', '/'] <:+: t)
    (after : Zoned (.code nested) m e) :
    Zoned (.code nested) (within .inert ('/' :: '*' :: (t ++ ['*', '/'])) ++ m) e
  | openRemark {nested : Bool} {t : Text} (hinside : ¬ ['*', '/'] <:+: t) :
    Zoned (.code nested) (within .inert ('/' :: '*' :: t)) .unclosed
  | literal {nested : Bool} {l m : Marked} {e : Ending} (inside : Zoned .literal l .closed)
    (after : Zoned (.code nested) m e) :
    Zoned (.code nested) (('\x60', .inert) :: (l ++ m)) e
  | openLiteral {nested : Bool} {l : Marked} (inside : Zoned .literal l .unclosed) :
    Zoned (.code nested) (('\x60', .inert) :: l) .unclosed
  | braces {b m : Marked} {e : Ending} (inside : Zoned (.code true) b .closed)
    (after : Zoned (.code true) m e) :
    Zoned (.code true) (('\x7b', .code) :: (b ++ ('\x7d', .code) :: m)) e
  | openBraces {b : Marked} {e : Ending} (inside : Zoned (.code true) b e) :
    Zoned (.code true) (('\x7b', .code) :: b) .unclosed
  | literalEnd : Zoned .literal [('\x60', .inert)] .closed
  | literalMissing : Zoned .literal [] .unclosed
  | escape (c : Char) {m : Marked} {e : Ending} (after : Zoned .literal m e) :
    Zoned .literal (('\\', .inert) :: (c, .inert) :: m) e
  | escapeMissing : Zoned .literal [('\\', .inert)] .unclosed
  | char {c : Char} {m : Marked} {e : Ending} (hescape : c ≠ '\\') (hend : c ≠ '\x60')
    (hhole : c = '$' → m.text.head? ≠ some '\x7b') (after : Zoned .literal m e) :
    Zoned .literal ((c, .inert) :: m) e
  | hole {b m : Marked} {e : Ending} (inside : Zoned (.code true) b .closed)
    (after : Zoned .literal m e) :
    Zoned .literal (('$', .inert) :: ('\x7b', .inert) :: (b ++ ('\x7d', .code) :: m)) e
  | openHole {b : Marked} {e : Ending} (inside : Zoned (.code true) b e) :
    Zoned .literal (('$', .inert) :: ('\x7b', .inert) :: b) .unclosed

namespace Marked

@[simp] theorem text_nil : text [] = [] := rfl

@[simp] theorem text_cons (c : Char) (z : Zone) (m : Marked) :
    text ((c, z) :: m) = c :: text m := rfl

@[simp] theorem text_append (m m' : Marked) : text (m ++ m') = text m ++ text m' :=
  List.map_append

@[simp] theorem text_within (z : Zone) (t : Text) : text (within z t) = t := by
  simp [text, within, Function.comp_def]

end Marked

@[simp] theorem within_nil (z : Zone) : within z [] = [] := rfl

@[simp] theorem within_cons (z : Zone) (c : Char) (t : Text) :
    within z (c :: t) = (c, z) :: within z t := rfl

@[simp] theorem within_append (z : Zone) (t u : Text) :
    within z (t ++ u) = within z t ++ within z u := List.map_append

/-! ## What a character begins -/

/-- What a character of code begins: a string, a template literal, one of the two kinds of remarks,
a pair of braces or the end of one, or nothing. -/
theorem code_cases (nested : Bool) (c : Char) (cs : Text) :
    (c = '\'' ∨ c = '"') ∨ c = '\x60' ∨ (∃ t, c = '/' ∧ cs = '/' :: t) ∨
      (∃ t, c = '/' ∧ cs = '*' :: t) ∨ (nested = true ∧ c = '\x7b') ∨
      (nested = true ∧ c = '\x7d') ∨ (IsPlain nested c ∧ NoRemark c cs) := by
  by_cases hplain : IsPlain nested c
  · by_cases hremark : NoRemark c cs
    · tauto
    · simp only [NoRemark, Classical.not_imp, not_forall, not_and_or, not_not] at hremark
      obtain ⟨hslash, d, hd, hsign⟩ := hremark
      obtain ⟨t, rfl⟩ := List.head?_eq_some_iff.mp hd
      rcases hsign with rfl | rfl
      · exact .inr (.inr (.inl ⟨t, hslash, rfl⟩))
      · exact .inr (.inr (.inr (.inl ⟨t, hslash, rfl⟩)))
  · simp only [IsPlain] at hplain
    tauto

/-- What a character in the text of a template literal begins: an escape, the end, a hole, or
nothing. -/
theorem literal_cases (c : Char) (cs : Text) :
    c = '\\' ∨ c = '\x60' ∨ (∃ t, c = '$' ∧ cs = '\x7b' :: t) ∨
      (c ≠ '\\' ∧ c ≠ '\x60' ∧ (c = '$' → cs.head? ≠ some '\x7b')) := by
  by_cases hhole : c = '$' ∧ cs.head? = some '\x7b'
  · obtain ⟨t, rfl⟩ := List.head?_eq_some_iff.mp hhole.2
    exact .inr (.inr (.inl ⟨t, hhole.1, rfl⟩))
  · tauto

/-! ## Strings and remarks -/

variable {e : Ending} {m : Marked}

theorem stringRest_append {quote : Char} (h : StringTail quote t e) (hescape : quote ≠ '\\')
    {rest : Text} (hrest : e = .unclosed → rest = []) :
    stringRest quote (t ++ rest) = (t, rest) := by
  induction h with
  | quote => cases rest <;> simp [stringRest, hescape]
  | lineFeed => cases rest <;> simp [stringRest]
  | missing => rw [hrest rfl]; rfl
  | missingEscape => rw [hrest rfl]; rfl
  | escape c after ih => simp [stringRest, ih hrest]
  | @char c t e hescape hquote hfeed after ih =>
    have hafter := ih hrest
    cases hmore : t ++ rest with
    | nil =>
      obtain ⟨rfl, rfl⟩ := List.append_eq_nil_iff.mp hmore
      rfl
    | cons d more =>
      rw [hmore] at hafter
      simp [stringRest, hmore, hafter, hescape, hquote, hfeed]

/-- Every text begins with the tail of a string literal, or is one that is not closed. -/
theorem exists_stringTail (quote : Char) : ∀ t : Text,
    StringTail quote t .unclosed ∨ ∃ s rest, t = s ++ rest ∧ StringTail quote s .closed
  | [] => .inl .missing
  | c :: t => by
    by_cases hquote : c = quote
    · exact .inr ⟨[quote], t, by rw [hquote]; rfl, .quote⟩
    by_cases hfeed : c = '\n'
    · exact .inr ⟨['\n'], t, by rw [hfeed]; rfl, .lineFeed⟩
    by_cases hescape : c = '\\'
    · subst hescape
      cases t with
      | nil => exact .inl .missingEscape
      | cons d t =>
        rcases exists_stringTail quote t with h | ⟨s, rest, rfl, h⟩
        · exact .inl (.escape d h)
        · exact .inr ⟨'\\' :: d :: s, rest, rfl, .escape d h⟩
    rcases exists_stringTail quote t with h | ⟨s, rest, rfl, h⟩
    · exact .inl (.char hescape hquote hfeed h)
    · exact .inr ⟨c :: s, rest, rfl, .char hescape hquote hfeed h⟩

theorem cut?_remark {inside : Text} (h : ¬ ['*', '/'] <:+: inside) (rest : Text) :
    Text.cut? "*/" (inside ++ '*' :: '/' :: rest) = some (inside, rest) := by
  induction inside with
  | nil => rfl
  | cons c inside ih =>
    obtain ⟨hhead, hinside⟩ := not_or.mp (List.infix_cons_iff.not.mp h)
    -- The sign cannot begin here: inside the remark it does not, and the sign has two characters.
    have hhere : Text.after? "*/" (c :: (inside ++ '*' :: '/' :: rest)) = none := by
      rw [Option.eq_none_iff_forall_ne_some]
      intro after hafter
      have hsplit : c :: (inside ++ '*' :: '/' :: rest) = '*' :: '/' :: after :=
        Text.after?_eq_some_iff.mp hafter
      cases inside with
      | nil => simp at hsplit
      | cons d inside =>
        obtain ⟨rfl, rfl, -⟩ : c = '*' ∧ d = '/' ∧ _ := by simpa using hsplit
        exact hhead ⟨inside, rfl⟩
    rw [List.cons_append, Text.cut?, hhere, ih hinside]
    rfl

theorem remarkRest_append {inside : Text} (h : ¬ ['*', '/'] <:+: inside) (rest : Text) :
    remarkRest (inside ++ ['*', '/'] ++ rest) = (inside ++ ['*', '/'], rest) := by
  rw [remarkRest, List.append_assoc, List.cons_append, List.singleton_append, cut?_remark h]
  rfl

theorem remarkRest_of_open (h : ¬ ['*', '/'] <:+: t) : remarkRest t = (t, []) := by
  have hcut : Text.cut? "*/" t = none := by
    have hcontains := Text.contains_iff.not.mpr h
    simpa [Text.contains] using hcontains
  rw [remarkRest, hcut]

theorem exists_remark (t : Text) : ¬ ['*', '/'] <:+: t ∨
    ∃ inside rest, t = inside ++ ['*', '/'] ++ rest ∧ ¬ ['*', '/'] <:+: inside := by
  induction t with
  | nil => exact .inl (by simp)
  | cons c t ih =>
    by_cases hhere : ['*', '/'] <+: c :: t
    · obtain ⟨rest, hrest⟩ := hhere
      exact .inr ⟨[], rest, hrest.symm, by simp⟩
    rcases ih with hnone | ⟨inside, rest, rfl, hinside⟩
    · exact .inl (List.infix_cons_iff.not.mpr (not_or.mpr ⟨hhere, hnone⟩))
    · refine .inr ⟨c :: inside, rest, rfl, List.infix_cons_iff.not.mpr (not_or.mpr ⟨?_, hinside⟩)⟩
      rw [List.append_assoc] at hhere
      exact fun hstart ↦ hhere (hstart.trans (List.prefix_append (c :: inside) _))

/-! ## The lexer's zones -/

def InCode (frames : List Frame) : Prop := frames.head? ≠ some .literal

def zoneAt (frames : List Frame) (c : Char) (cs : Text) : Zone :=
  match frames with
  | .literal :: _ => .inert
  | _ =>
    if c = '\'' ∨ c = '"' ∨ c = '\x60' then .inert
    else if c = '/' ∧ (cs.head? = some '/' ∨ cs.head? = some '*') then .inert
    else .code

/-- The lexer's account of the zones of a script inside the given frames. It is the lexer's walk
without its references, whose characters are code one by one. -/
def marks (frames : List Frame) (script : Text) : Marked :=
  match script with
  | [] => []
  | c :: cs =>
    let step := next frames true c cs
    within (zoneAt frames c cs) step.1.source ++ marks step.2.1 step.2.2.2
termination_by script.length
decreasing_by
  have := length_next_le frames true c cs
  simp only [List.length_cons]
  omega

@[simp] theorem marks_nil (frames : List Frame) : marks frames [] = [] := by rw [marks]

theorem marks_of_next {frames after : List Frame} {c : Char} {cs rest : Text} {lexeme : Lexeme}
    {blocked : Bool} (h : next frames true c cs = (lexeme, after, blocked, rest)) :
    marks frames (c :: cs) = within (zoneAt frames c cs) lexeme.source ++ marks after rest := by
  rw [marks, h]

section Steps

variable {frames outer : List Frame} {blocked : Bool} {c : Char} {cs : Text}

theorem next_of_inCode (h : InCode frames) :
    next frames blocked c cs = nextInCode frames blocked c cs := by
  unfold next
  split
  · exact absurd rfl h
  · rfl

theorem next_literal_char (hescape : c ≠ '\\') (hend : c ≠ '\x60')
    (hhole : c = '$' → cs.head? ≠ some '\x7b') :
    next (.literal :: outer) blocked c cs = (.text [c], .literal :: outer, false, cs) := by
  change nextInLiteral outer c cs = _
  unfold nextInLiteral
  rw [if_neg hescape, if_neg hend]
  split
  · exact absurd rfl (hhole rfl)
  · rfl

theorem next_quote (h : InCode frames) (hquote : c = '\'' ∨ c = '"') :
    next frames blocked c cs =
      (.text (c :: (stringRest c cs).1), frames, false, (stringRest c cs).2) := by
  rw [next_of_inCode h]
  exact if_pos hquote

theorem next_literal (h : InCode frames) :
    next frames blocked '\x60' cs = (.text ['\x60'], .literal :: frames, false, cs) :=
  next_of_inCode h

theorem next_lineRemark (h : InCode frames) :
    next frames blocked '/' ('/' :: cs) = (.text ('/' :: '/' :: cs.takeWhile (· != '\n')), frames,
      false, cs.dropWhile (· != '\n')) :=
  next_of_inCode h

theorem next_remark (h : InCode frames) :
    next frames blocked '/' ('*' :: cs) =
      (.text ('/' :: '*' :: (remarkRest cs).1), frames, false, (remarkRest cs).2) :=
  next_of_inCode h

theorem next_brace (h : InCode frames) (hnested : frames ≠ []) :
    next frames blocked '\x7b' cs = (.text ['\x7b'], .brace :: frames, false, cs) := by
  rw [next_of_inCode h]
  simp [nextInCode, hnested]

theorem next_unbrace (h : InCode frames) (hnested : frames ≠ []) :
    next frames blocked '\x7d' cs = (.text ['\x7d'], frames.tail, false, cs) := by
  rw [next_of_inCode h]
  simp [nextInCode, hnested]

theorem nextInCode_of_isPlain (hplain : IsPlain (!frames.isEmpty) c)
    (hremark : NoRemark c cs) :
    nextInCode frames blocked c cs =
      if c = '$' then
        match reference? blocked cs with
        | some (name, rest) => (.reference name, frames, true, rest)
        | none => (.text [c], frames, true, cs)
      else (.text [c], frames, blocks c, cs) := by
  obtain ⟨hsingle, hdouble, hliteral, hbraces⟩ := hplain
  unfold nextInCode
  rw [if_neg (by simp [hsingle, hdouble]), if_neg hliteral]
  split
  · exact absurd rfl (hremark rfl '/' rfl).1
  · exact absurd rfl (hremark rfl '*' rfl).2
  · have hopen : ¬ (decide (c = '\x7b') && !frames.isEmpty) = true := by
      rw [Bool.and_eq_true, decide_eq_true_eq]
      exact fun h ↦ (hbraces h.2).1 h.1
    have hclose : ¬ (decide (c = '\x7d') && !frames.isEmpty) = true := by
      rw [Bool.and_eq_true, decide_eq_true_eq]
      exact fun h ↦ (hbraces h.2).2 h.1
    exact (if_neg hopen).trans (if_neg hclose)

theorem next_plain (h : InCode frames) (hplain : IsPlain (!frames.isEmpty) c)
    (hremark : NoRemark c cs)
    (hreference : c = '$' → reference? blocked cs = none) :
    next frames blocked c cs = (.text [c], frames, blocks c, cs) := by
  rw [next_of_inCode h, nextInCode_of_isPlain hplain hremark]
  split_ifs with hdollar
  · rw [hreference hdollar, hdollar]
    rfl
  · rfl

theorem reference?_blocked (t : Text) : reference? true t = none := by
  simp [reference?]

theorem zoneAt_of_inCode (h : InCode frames) :
    zoneAt frames c cs =
      if c = '\'' ∨ c = '"' ∨ c = '\x60' then .inert
      else if c = '/' ∧ (cs.head? = some '/' ∨ cs.head? = some '*') then .inert
      else .code := by
  unfold zoneAt
  split
  · exact absurd rfl h
  · rfl

theorem zoneAt_of_isPlain (h : InCode frames) (hplain : IsPlain (!frames.isEmpty) c)
    (hremark : NoRemark c cs) : zoneAt frames c cs = .code := by
  obtain ⟨hsingle, hdouble, hliteral, -⟩ := hplain
  rw [zoneAt_of_inCode h, if_neg (by simp [hsingle, hdouble, hliteral]), if_neg]
  rintro ⟨rfl, hslash | hstar⟩
  · exact (hremark rfl '/' hslash).1 rfl
  · exact (hremark rfl '*' hstar).2 rfl

end Steps

section Constructs

variable {frames outer : List Frame} {c : Char} {t cs rest : Text}

theorem marks_plain (h : InCode frames) (hplain : IsPlain (!frames.isEmpty) c)
    (hremark : NoRemark c cs) :
    marks frames (c :: cs) = (c, .code) :: marks frames cs := by
  rw [marks_of_next (next_plain h hplain hremark fun _ ↦ reference?_blocked _),
    zoneAt_of_isPlain h hplain hremark]
  rfl

theorem marks_string (h : InCode frames) (hquote : c = '\'' ∨ c = '"') (tail : StringTail c t e)
    (hend : e = .unclosed → rest = []) :
    marks frames (c :: (t ++ rest)) = within .inert (c :: t) ++ marks frames rest := by
  have hescape : c ≠ '\\' := by rcases hquote with rfl | rfl <;> decide
  have hzone : zoneAt frames c (t ++ rest) = .inert := by
    rw [zoneAt_of_inCode h, if_pos (by tauto)]
  rw [marks_of_next (next_quote h hquote), stringRest_append tail hescape hend, hzone]
  rfl

theorem marks_lineRemark (h : InCode frames) (hline : '\n' ∉ t)
    (hrest : ∀ d ∈ rest.head?, d = '\n') :
    marks frames ('/' :: '/' :: (t ++ rest)) =
      within .inert ('/' :: '/' :: t) ++ marks frames rest := by
  have hinside : ∀ d ∈ t, (d != '\n') = true := fun d hd ↦ bne_iff_ne.mpr fun heq ↦ hline (heq ▸ hd)
  have hstop : ∀ d, rest.head? = some d → (d != '\n') = false := by
    intro d hd
    rw [hrest d hd]
    decide
  rw [marks_of_next (next_lineRemark h), Text.takeWhile_append_of_stop hinside hstop,
    Text.dropWhile_append_of_stop hinside hstop, zoneAt_of_inCode h]
  rfl

theorem marks_remark (h : InCode frames) {inside : Text} (hread : remarkRest cs = (inside, rest)) :
    marks frames ('/' :: '*' :: cs) =
      within .inert ('/' :: '*' :: inside) ++ marks frames rest := by
  rw [marks_of_next (next_remark h), hread, zoneAt_of_inCode h]
  rfl

theorem marks_literal (h : InCode frames) :
    marks frames ('\x60' :: cs) = ('\x60', .inert) :: marks (.literal :: frames) cs := by
  rw [marks_of_next (next_literal h), zoneAt_of_inCode h]
  rfl

theorem marks_brace (h : InCode frames) (hnested : frames ≠ []) :
    marks frames ('\x7b' :: cs) = ('\x7b', .code) :: marks (.brace :: frames) cs := by
  rw [marks_of_next (next_brace h hnested), zoneAt_of_inCode h]
  rfl

theorem marks_unbrace {frame : Frame} (h : InCode (frame :: outer)) :
    marks (frame :: outer) ('\x7d' :: cs) = ('\x7d', .code) :: marks outer cs := by
  rw [marks_of_next (next_unbrace h (List.cons_ne_nil _ _)), zoneAt_of_inCode h]
  rfl

theorem marks_literal_char (hescape : c ≠ '\\') (hend : c ≠ '\x60')
    (hhole : c = '$' → cs.head? ≠ some '\x7b') :
    marks (.literal :: outer) (c :: cs) = (c, .inert) :: marks (.literal :: outer) cs := by
  rw [marks_of_next (next_literal_char hescape hend hhole)]
  rfl

theorem marks_hole : marks (.literal :: outer) ('$' :: '\x7b' :: cs) =
    ('$', .inert) :: ('\x7b', .inert) :: marks (.hole :: .literal :: outer) cs := by
  rw [marks]
  rfl

end Constructs

/-! ## Uniqueness -/

/-- What it means that the lexer marks a part as the grammar does, whatever follows it. What follows
code is nothing or the brace that closes it. -/
def Covers (m : Marked) (e : Ending) : Part → Prop
  | .code nested => ∀ frames rest, InCode frames → (!frames.isEmpty) = nested →
      (e = .unclosed → rest = []) → (∀ d ∈ rest.head?, d = '\x7d') →
      marks frames (m.text ++ rest) = m ++ marks frames rest
  | .literal => ∀ outer rest, (e = .unclosed → rest = []) →
      marks (.literal :: outer) (m.text ++ rest) = m ++ marks outer rest

theorem head?_append_of {P : Char → Prop} {rest : Text} (ht : ∀ d ∈ t.head?, P d)
    (hrest : ∀ d ∈ rest.head?, P d) : ∀ d ∈ (t ++ rest).head?, P d := by
  cases t with
  | nil => exact hrest
  | cons c t => exact ht

/-- Code in braces is marked up to the brace that closes them. -/
theorem Covers.enclosed {frame : Frame} {outer : List Frame} (h : Covers m .closed (.code true))
    (hframe : InCode (frame :: outer)) (rest : Text) :
    marks (frame :: outer) (m.text ++ '\x7d' :: rest) =
      m ++ ('\x7d', .code) :: marks outer rest := by
  rw [h (frame :: outer) _ hframe rfl (fun h ↦ nomatch h) (by simp), marks_unbrace hframe]

theorem Covers.unclosed {frame : Frame} {outer : List Frame} (h : Covers m e (.code true))
    (hframe : InCode (frame :: outer)) : marks (frame :: outer) m.text = m := by
  have hall := h (frame :: outer) [] hframe rfl (fun _ ↦ rfl) (by simp)
  rwa [List.append_nil, marks_nil, List.append_nil] at hall

/-- **The lexer's zones are those of the grammar.** Each rule is a step of the lexer into the part
that it begins with, and the frames are the same again when that part is over. -/
theorem Zoned.covers {part : Part} (h : Zoned part m e) : Covers m e part := by
  induction h with
  | done => exact fun frames rest _ _ _ _ ↦ rfl
  | @plain nested c m e hplain hremark _ ih =>
    intro frames rest hframes hnested hend hrest
    -- A slash at the end of code has a brace after it or nothing.
    have hnext : NoRemark c (m.text ++ rest) := fun hslash ↦
      head?_append_of (hremark hslash) fun d hd ↦ by rw [hrest d hd]; decide
    rw [Marked.text_cons, List.cons_append, marks_plain hframes (hnested ▸ hplain) hnext,
      ih frames rest hframes hnested hend hrest, List.cons_append]
  | @string nested quote t m e hquote tail _ ih =>
    intro frames rest hframes hnested hend hrest
    rw [Marked.text_append, Marked.text_within, List.append_assoc, List.cons_append,
      marks_string hframes hquote tail (fun h ↦ nomatch h),
      ih frames rest hframes hnested hend hrest, List.append_assoc]
  | @openString nested quote t hquote tail =>
    intro frames rest hframes hnested hend hrest
    rw [Marked.text_within, List.cons_append, marks_string hframes hquote tail hend]
  | @lineRemark nested t m e hline _ ih =>
    intro frames rest hframes hnested hend hrest
    rw [Marked.text_append, Marked.text_within, List.append_assoc, List.cons_append,
      List.cons_append, marks_lineRemark hframes hline (by simp),
      ih frames rest hframes hnested hend hrest, List.append_assoc]
  | @lastRemark nested t hline =>
    intro frames rest hframes hnested hend hrest
    obtain rfl := hend rfl
    rw [Marked.text_within, List.cons_append, List.cons_append,
      marks_lineRemark hframes hline (by simp)]
  | @remark nested t m e hinside _ ih =>
    intro frames rest hframes hnested hend hrest
    rw [Marked.text_append, Marked.text_within, List.append_assoc, List.cons_append,
      List.cons_append, marks_remark hframes (remarkRest_append hinside _),
      ih frames rest hframes hnested hend hrest, List.append_assoc]
  | @openRemark nested t hinside =>
    intro frames rest hframes hnested hend hrest
    obtain rfl := hend rfl
    rw [Marked.text_within, List.append_nil, marks_remark hframes (remarkRest_of_open hinside)]
  | @literal nested l m e _ _ ihInside ih =>
    intro frames rest hframes hnested hend hrest
    rw [Marked.text_cons, Marked.text_append, List.cons_append, List.append_assoc,
      marks_literal hframes, ihInside frames _ (fun h ↦ nomatch h),
      ih frames rest hframes hnested hend hrest, List.cons_append, List.append_assoc]
  | openLiteral _ ih =>
    intro frames rest hframes hnested hend hrest
    rw [Marked.text_cons, List.cons_append, marks_literal hframes, ih frames rest hend,
      List.cons_append]
  | @braces b m e _ _ ihInside ih =>
    intro frames rest hframes hnested hend hrest
    have hne : frames ≠ [] := by simpa using hnested
    simp only [Marked.text_cons, Marked.text_append, List.cons_append, List.append_assoc]
    rw [marks_brace hframes hne, ihInside.enclosed (by simp [InCode]),
      ih frames rest hframes hnested hend hrest]
  | @openBraces b e _ ih =>
    intro frames rest hframes hnested hend hrest
    obtain rfl := hend rfl
    have hne : frames ≠ [] := by simpa using hnested
    rw [List.append_nil, marks_nil, List.append_nil, Marked.text_cons, marks_brace hframes hne,
      ih.unclosed (by simp [InCode])]
  | literalEnd =>
    intro outer rest _
    exact marks_of_next rfl
  | literalMissing =>
    intro outer rest hend
    rw [hend rfl]
    simp
  | escape c _ ih =>
    intro outer rest hend
    rw [Marked.text_cons, Marked.text_cons, List.cons_append, List.cons_append, marks_of_next rfl]
    exact congrArg _ (ih outer rest hend)
  | escapeMissing =>
    intro outer rest hend
    have hstep : marks (.literal :: outer) ['\\'] =
        ('\\', .inert) :: marks (.literal :: outer) [] := marks_of_next rfl
    rw [hend rfl, marks_nil]
    exact hstep.trans (by rw [marks_nil]; rfl)
  | @char c m e hescape hclose hhole after ih =>
    intro outer rest hend
    -- A literal that ends here for want of text has nothing after it that could open a hole.
    have hnext : c = '$' → (m.text ++ rest).head? ≠ some '\x7b' := by
      intro hdollar
      cases after with
      | literalMissing => simp [hend rfl]
      | _ => exact hhole hdollar
    rw [Marked.text_cons, List.cons_append, marks_literal_char hescape hclose hnext,
      ih outer rest hend, List.cons_append]
  | @hole b m e _ _ ihInside ih =>
    intro outer rest hend
    simp only [Marked.text_cons, Marked.text_append, List.cons_append, List.append_assoc]
    rw [marks_hole, ihInside.enclosed (by simp [InCode]), ih outer rest hend]
  | @openHole b e _ ih =>
    intro outer rest hend
    obtain rfl := hend rfl
    rw [List.append_nil, marks_nil, List.append_nil, Marked.text_cons, Marked.text_cons, marks_hole,
      ih.unclosed (by simp [InCode])]

/-- The zones of a script are those that the lexer goes by. -/
theorem Zoned.eq_marks (h : Zoned (.code false) m e) : m = marks [] m.text := by
  have hcovers := h.covers [] [] (by simp [InCode]) rfl (fun _ ↦ rfl) (by simp)
  rw [List.append_nil, marks_nil, List.append_nil] at hcovers
  exact hcovers.symm

/-! ## Existence -/

/-- What may follow a part that is over: after code the brace that closes what is around it. -/
def Follows : Part → Text → Prop
  | .code nested, rest => ∀ d ∈ rest.head?, nested = true ∧ d = '\x7d'
  | .literal, _ => True

/-- Whether a text begins with a part of the grammar, and goes on as it may. -/
def Begins (part : Part) (t : Text) : Prop :=
  ∃ m e rest, t = m.text ++ rest ∧ Zoned part m e ∧ (e = .unclosed → rest = []) ∧
    Follows part rest

theorem Begins.of_unclosed {part : Part} (h : Zoned part m .unclosed) : Begins part m.text :=
  ⟨m, .unclosed, [], (List.append_nil _).symm, h, fun _ ↦ rfl, by cases part <;> simp [Follows]⟩

/-- A part stays one with something before it that may stand there. -/
theorem Begins.append {part : Part} (h : Begins part t) (front : Marked)
    (hfront : ∀ {m e}, m.text <+: t → Zoned part m e → Zoned part (front ++ m) e) :
    Begins part (front.text ++ t) := by
  obtain ⟨m, e, rest, rfl, hm, hend, hfollows⟩ := h
  refine ⟨front ++ m, e, rest, ?_, hfront (List.prefix_append _ _) hm, hend, hfollows⟩
  rw [Marked.text_append, List.append_assoc]

theorem head?_of_prefix {P : Char → Prop} {u : Text} (h : t <+: u) (hu : ∀ d ∈ u.head?, P d) :
    ∀ d ∈ t.head?, P d := by
  obtain ⟨rest, rfl⟩ := h
  cases t with
  | nil => simp
  | cons c t => exact hu

/-- Code inside braces runs to the end, or to the brace that closes them. -/
theorem Begins.nested (h : Begins (.code true) t) :
    (∃ b e, t = b.text ∧ Zoned (.code true) b e) ∨
      ∃ b rest, t = b.text ++ '\x7d' :: rest ∧ Zoned (.code true) b .closed := by
  obtain ⟨b, e, rest, rfl, hb, hend, hfollows⟩ := h
  cases rest with
  | nil => exact .inl ⟨b, e, List.append_nil _, hb⟩
  | cons d rest =>
    obtain rfl : d = '\x7d' := (hfollows d rfl).2
    cases e with
    | closed => exact .inr ⟨b, rest, rfl, hb⟩
    | unclosed => exact absurd (hend rfl) (List.cons_ne_nil _ _)

/-- The text of a template literal runs to the end, or is closed. -/
theorem Begins.literal (h : Begins .literal t) :
    (∃ l, t = l.text ∧ Zoned .literal l .unclosed) ∨
      ∃ l rest, t = l.text ++ rest ∧ Zoned .literal l .closed := by
  obtain ⟨l, e, rest, rfl, hl, hend, -⟩ := h
  cases e with
  | closed => exact .inr ⟨l, rest, rfl, hl⟩
  | unclosed => exact .inl ⟨l, by rw [hend rfl, List.append_nil], hl⟩

section Shorter

variable {c : Char} {cs : Text} (shorter : ∀ part t, t <:+ cs → Begins part t)

include shorter

/-- The text of a template literal goes on by one character, escape or hole. -/
theorem beginsLiteral_of_shorter : Begins .literal (c :: cs) := by
  rcases literal_cases c cs with rfl | rfl | ⟨inside, rfl, rfl⟩ | ⟨hescape, hclose, hhole⟩
  · cases cs with
    | nil => exact .of_unclosed .escapeMissing
    | cons d cs =>
      exact (shorter .literal cs (List.suffix_cons d cs)).append [('\\', .inert), (d, .inert)]
        fun _ h ↦ .escape d h
  · exact ⟨[('\x60', .inert)], .closed, cs, rfl, .literalEnd, fun h ↦ (nomatch h), trivial⟩
  · rcases (shorter (.code true) inside (List.suffix_cons _ inside)).nested with
      ⟨b, e, rfl, hb⟩ | ⟨b, rest, rfl, hb⟩
    · exact .of_unclosed (.openHole hb)
    · have hsuffix : rest <:+ '\x7b' :: (b.text ++ '\x7d' :: rest) :=
        ⟨'\x7b' :: (b.text ++ ['\x7d']), by simp⟩
      have hrest := (shorter .literal rest hsuffix).append
        (('$', .inert) :: ('\x7b', .inert) :: (b ++ [('\x7d', .code)]))
        fun _ h ↦ by simpa using Zoned.hole hb h
      simpa using hrest
  · refine (shorter .literal cs List.suffix_rfl).append [(c, .inert)] fun hstart h ↦ ?_
    refine .char hescape hclose (fun hdollar hbrace ↦ ?_) h
    have hnext : ∀ d ∈ cs.head?, d ≠ '\x7b' := fun d hd heq ↦ hhole hdollar (heq ▸ hd)
    exact head?_of_prefix hstart hnext _ hbrace rfl

/-- Code goes on by one character, string, remark, template literal or pair of braces. -/
theorem beginsCode_of_shorter (nested : Bool) : Begins (.code nested) (c :: cs) := by
  rcases code_cases nested c cs with hquote | rfl | ⟨inside, rfl, rfl⟩ | ⟨inside, rfl, rfl⟩ |
    ⟨rfl, rfl⟩ | ⟨rfl, rfl⟩ | ⟨hplain, hremark⟩
  · rcases exists_stringTail c cs with tail | ⟨s, rest, rfl, tail⟩
    · have hopen : Zoned (.code nested) (within .inert (c :: cs)) .unclosed :=
        .openString hquote tail
      simpa using Begins.of_unclosed hopen
    · have hrest := (shorter (.code nested) rest (List.suffix_append s rest)).append
        (within .inert (c :: s)) fun _ h ↦ .string hquote tail h
      simpa using hrest
  · rcases (shorter .literal cs List.suffix_rfl).literal with ⟨l, rfl, hl⟩ | ⟨l, rest, rfl, hl⟩
    · exact .of_unclosed (.openLiteral hl)
    · have hrest := (shorter (.code nested) rest (List.suffix_append l.text rest)).append
        (('\x60', .inert) :: l) fun _ h ↦ .literal hl h
      simpa using hrest
  · by_cases hfeed : '\n' ∈ inside
    · obtain ⟨t, rest, rfl, ht⟩ := List.eq_append_cons_of_mem hfeed
      have hsuffix : rest <:+ '/' :: (t ++ '\n' :: rest) := ⟨'/' :: (t ++ ['\n']), by simp⟩
      have hrest := (shorter (.code nested) rest hsuffix).append
        (within .inert ('/' :: '/' :: t) ++ [('\n', .code)]) fun _ h ↦ by
          simpa using Zoned.lineRemark ht (.plain (by simp [IsPlain]) (by simp [NoRemark]) h)
      simpa using hrest
    · have hlast : Zoned (.code nested) (within .inert ('/' :: '/' :: inside)) .unclosed :=
        .lastRemark hfeed
      simpa using Begins.of_unclosed hlast
  · rcases exists_remark inside with hopen | ⟨t, rest, rfl, ht⟩
    · have hlast : Zoned (.code nested) (within .inert ('/' :: '*' :: inside)) .unclosed :=
        .openRemark hopen
      simpa using Begins.of_unclosed hlast
    · have hsuffix : rest <:+ '*' :: (t ++ ['*', '/'] ++ rest) :=
        ⟨'*' :: (t ++ ['*', '/']), by simp⟩
      have hrest := (shorter (.code nested) rest hsuffix).append
        (within .inert ('/' :: '*' :: (t ++ ['*', '/']))) fun _ h ↦ .remark ht h
      simpa using hrest
  · rcases (shorter (.code true) cs List.suffix_rfl).nested with
      ⟨b, e, rfl, hb⟩ | ⟨b, rest, rfl, hb⟩
    · exact .of_unclosed (.openBraces hb)
    · have hsuffix : rest <:+ b.text ++ '\x7d' :: rest := ⟨b.text ++ ['\x7d'], by simp⟩
      have hrest := (shorter (.code true) rest hsuffix).append
        (('\x7b', .code) :: (b ++ [('\x7d', .code)])) fun _ h ↦ by simpa using Zoned.braces hb h
      simpa using hrest
  · exact ⟨[], .closed, '\x7d' :: cs, rfl, .done, fun h ↦ (nomatch h), by simp [Follows]⟩
  · exact (shorter (.code nested) cs List.suffix_rfl).append [(c, .code)] fun hstart h ↦
      .plain hplain (fun hslash ↦ head?_of_prefix hstart (hremark hslash)) h

end Shorter

/-- What a text ends with begins with code, and with the text of a template literal. The parts that
a rule is made of are such endings, so the induction is over all of them. -/
theorem begins_of_suffix {u : Text} (h : u <:+ t) (part : Part) : Begins part u := by
  induction t generalizing u part with
  | nil =>
    obtain rfl := List.suffix_nil.mp h
    cases part with
    | code nested => exact ⟨[], .closed, [], rfl, .done, fun _ ↦ rfl, by simp [Follows]⟩
    | literal => exact .of_unclosed .literalMissing
  | cons c cs ih =>
    rcases List.suffix_cons_iff.mp h with rfl | hshorter
    · cases part with
      | code nested => exact beginsCode_of_shorter (fun part' t' ht ↦ ih ht part') nested
      | literal => exact beginsLiteral_of_shorter fun part' t' ht ↦ ih ht part'
    · exact ih hshorter part

/-- The zones of a script, in the sense of the grammar. -/
def IsZoning (script : Text) (m : Marked) : Prop :=
  m.text = script ∧ ∃ e, Zoned (.code false) m e

/-- **Every script has exactly one division into zones,** and it is the lexer's. -/
theorem isZoning_iff {script : Text} : IsZoning script m ↔ m = marks [] script := by
  constructor
  · rintro ⟨rfl, e, hm⟩
    exact hm.eq_marks
  · rintro rfl
    obtain ⟨m, e, rest, rfl, hm, -, hfollows⟩ :=
      begins_of_suffix (List.suffix_refl script) (.code false)
    obtain rfl : rest = [] := by
      cases rest with
      | nil => rfl
      | cons d rest => exact absurd (hfollows d rfl).1 Bool.false_ne_true
    rw [List.append_nil, ← hm.eq_marks]
    exact ⟨rfl, e, hm⟩

end Script

end PageCompiler
