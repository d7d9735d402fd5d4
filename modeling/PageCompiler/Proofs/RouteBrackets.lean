import Mathlib.Computability.Language
import PageCompiler.Proofs.Texts
import PageCompiler.Route.Pattern

/-!
# The brackets of a route

The check of a route goes through its characters once. It counts the brackets that are open and
remembers where the last one opened, which is all it knows: a bracket that closes none is not
counted, and behind a nested bracket the text since the last opening goes on past what closed it.

What the check accepts is said here by a language that has no counters: pieces without brackets and
parameters, in any order, where a parameter is a text between brackets that holds none itself and is
not blank (`Route.wellBracketed`). What it reports is said by the text alone: a bracket is open
behind a text if from some place on more brackets open in it than close (`Route.LeavesOpen`), and
from that it follows at each character what is wrong there (`Route.ProblemAt`).

The counters keep their meaning also behind mistakes (`Route.Scanned`), so that every mistake is
reported with its place, whatever stands around it, and the empty report means that there is none.
-/

namespace PageCompiler

variable {c : Char} {t : Text}

namespace Route

open Computability

/-! ## The grammar -/

def bracketFree : Language Char := {t | '[' ∉ t ∧ ']' ∉ t}

/-- The parameters: brackets around a text that has no brackets and is not blank. -/
def bracketed : Language Char :=
  {t | ∃ name ∈ bracketFree, Text.isBlankText name = false ∧ t = '[' :: (name ++ [']'])}

/-- The routes whose brackets are in order. -/
def wellBracketed : Language Char := (bracketFree + bracketed)∗

/-! ## The mistakes -/

/-- Whether a bracket is open behind a text: from some place on more brackets open than close. -/
def LeavesOpen (front : Text) : Prop := ∃ back, back <:+ front ∧ back.count ']' < back.count '['

/-- The problems that a character brings up behind a text. -/
inductive ProblemAt (front : Text) : Char → BracketProblem → Prop
  /-- A bracket opens while another one is open. -/
  | nested (isOpen : LeavesOpen front) : ProblemAt front '[' (.nested front.length)
  /-- A bracket closes while none is open. -/
  | unmatched (isClosed : ¬LeavesOpen front) : ProblemAt front ']' (.unmatched front.length)
  /-- A bracket closes with nothing but blanks behind the one that opened last. -/
  | blank {before inside : Text} (behind : front = before ++ '[' :: inside)
    (isBlank : Text.isBlankText inside = true) : ProblemAt front ']' (.blank before.length)

/-- The problems with the brackets of a path. -/
inductive HasProblem (path : Text) : BracketProblem → Prop
  /-- A problem that one of its characters brings up. -/
  | within {front back : Text} {c : Char} {p : BracketProblem} (split : path = front ++ c :: back)
    (arises : ProblemAt front c p) : HasProblem path p
  /-- A bracket is still open at the end. -/
  | unclosed (isOpen : LeavesOpen path) : HasProblem path .unclosed

/-! ## The state of the check -/

/-- What the check knows behind a text: how many brackets are open, and what follows the one that
opened last, if any. -/
structure Scanned (front : Text) (depth start : Nat) (inside : Text) : Prop where
  /-- The counter is the largest surplus of opening brackets from some place on. -/
  lt_depth_iff : ∀ n, n < depth ↔ ∃ back, back <:+ front ∧ back.count ']' + n < back.count '['
  /-- The text that was remembered begins behind a bracket, or at the beginning. -/
  behind : front = inside ∨ ∃ before, front = before ++ '[' :: inside ∧ before.length = start
  /-- No bracket opened since. -/
  notMem : '[' ∉ inside

theorem scanned_nil : Scanned [] 0 0 [] where
  lt_depth_iff n := by simp
  behind := .inl rfl
  notMem := List.not_mem_nil

namespace Scanned

variable {front inside : Text} {depth start : Nat}

theorem pos_depth_iff (h : Scanned front depth start inside) : 0 < depth ↔ LeavesOpen front :=
  h.lt_depth_iff 0

/-- A surplus behind one more character is that of the character, or one from before. -/
theorem exists_suffix_concat {P : Text → Prop} :
    (∃ back, back <:+ front ++ [c] ∧ P back) ↔ P [] ∨ ∃ back, back <:+ front ∧ P (back ++ [c]) := by
  simp only [List.suffix_concat_iff]
  constructor
  · rintro ⟨_, rfl | ⟨back, rfl, hback⟩, h⟩
    · exact .inl h
    · exact .inr ⟨back, hback, h⟩
  · rintro (h | ⟨back, hback, h⟩)
    · exact ⟨[], .inl rfl, h⟩
    · exact ⟨back ++ [c], .inr ⟨back, rfl, hback⟩, h⟩

theorem opened (h : Scanned front depth start inside) :
    Scanned (front ++ ['[']) (depth + 1) front.length [] where
  lt_depth_iff n := by
    rw [exists_suffix_concat]
    simp only [List.count_append, List.count_singleton_self, List.count_nil]
    cases n with
    | zero =>
      refine iff_of_true (Nat.succ_pos _) (.inr ⟨[], List.nil_suffix, by decide⟩)
    | succ n =>
      rw [Nat.succ_lt_succ_iff, h.lt_depth_iff n]
      simp [← Nat.add_assoc]
  behind := .inr ⟨front, rfl, rfl⟩
  notMem := List.not_mem_nil

theorem behind_concat (h : Scanned front depth start inside) (c : Char) :
    front ++ [c] = inside ++ [c] ∨
      ∃ before, front ++ [c] = before ++ '[' :: (inside ++ [c]) ∧ before.length = start := by
  rcases h.behind with rfl | ⟨before, rfl, hstart⟩
  · exact .inl rfl
  · exact .inr ⟨before, by simp, hstart⟩

theorem notMem_concat (h : Scanned front depth start inside) (hc : c ≠ '[') :
    '[' ∉ inside ++ [c] := by
  rw [List.mem_append, List.mem_singleton, not_or]
  exact ⟨h.notMem, hc.symm⟩

theorem closed (h : Scanned front depth start inside) :
    Scanned (front ++ [']']) (depth - 1) start (inside ++ [']']) where
  lt_depth_iff n := by
    rw [exists_suffix_concat, Nat.lt_sub_iff_add_lt, h.lt_depth_iff (n + 1)]
    simp [Nat.add_right_comm, Nat.add_assoc]
  behind := h.behind_concat ']'
  notMem := h.notMem_concat (by decide)

theorem passed (h : Scanned front depth start inside) (hopen : c ≠ '[') (hclose : c ≠ ']') :
    Scanned (front ++ [c]) depth start (inside ++ [c]) where
  lt_depth_iff n := by
    rw [exists_suffix_concat, h.lt_depth_iff n]
    simp [List.count_append, hopen, hclose]
  behind := h.behind_concat c
  notMem := h.notMem_concat hopen

theorem eq_of_behind (h : Scanned front depth start inside) {before blank : Text}
    (hfront : front = before ++ '[' :: blank) (hblank : '[' ∉ blank) :
    blank = inside ∧ before.length = start := by
  have hread : Text.upTo? '[' front.reverse = some (blank.reverse, before.reverse) := by
    rw [Text.upTo?_eq_some_iff, hfront]
    simpa using hblank
  rcases h.behind with heq | ⟨before', hfront', hstart⟩
  · have hmem : '[' ∈ front := hfront ▸ List.mem_append_cons_self
    exact absurd (heq ▸ hmem) h.notMem
  · have hread' : Text.upTo? '[' front.reverse = some (inside.reverse, before'.reverse) := by
      rw [Text.upTo?_eq_some_iff, hfront']
      simpa using h.notMem
    obtain ⟨hinside, hbefore⟩ := Prod.mk.inj (Option.some.inj (hread.symm.trans hread'))
    rw [List.reverse_inj] at hinside hbefore
    exact ⟨hinside, hbefore ▸ hstart⟩

end Scanned

/-! ## What one character does -/

section Equations

variable (offset depth start : Nat) (inside rest : Text)

theorem problemsFrom_open : problemsFrom offset depth start inside ('[' :: rest) =
    (if depth = 0 then [] else [.nested offset]) ++
      problemsFrom (offset + 1) (depth + 1) offset [] rest := by
  rw [problemsFrom, if_pos rfl]

theorem problemsFrom_unmatched : problemsFrom offset 0 start inside (']' :: rest) =
    .unmatched offset :: problemsFrom (offset + 1) 0 start (inside ++ [']']) rest := by
  rw [problemsFrom, if_neg (by decide), if_pos rfl, if_pos rfl]

theorem problemsFrom_close : problemsFrom offset (depth + 1) start inside (']' :: rest) =
    (if Text.isBlankText inside then [.blank start] else []) ++
      problemsFrom (offset + 1) depth start (inside ++ [']']) rest := by
  rw [problemsFrom, if_neg (by decide), if_pos rfl, if_neg (Nat.succ_ne_zero depth),
    Nat.add_sub_cancel]

theorem problemsFrom_pass (hopen : c ≠ '[') (hclose : c ≠ ']') :
    problemsFrom offset depth start inside (c :: rest) =
      problemsFrom (offset + 1) depth start (inside ++ [c]) rest := by
  rw [problemsFrom, if_neg hopen, if_neg hclose]

end Equations

theorem notMem_of_isBlankText (hc : isBlank c = false) (h : Text.isBlankText t = true) :
    c ∉ t := fun hmem ↦ by
  have hblank := List.all_eq_true.mp h c hmem
  exact absurd (hc.symm.trans hblank) Bool.false_ne_true

theorem leavesOpen_of_isBlankText (before : Text) {inside : Text}
    (h : Text.isBlankText inside = true) : LeavesOpen (before ++ '[' :: inside) := by
  refine ⟨'[' :: inside, List.suffix_append _ _, ?_⟩
  have hnone : ']' ∉ '[' :: inside := by
    simpa using notMem_of_isBlankText (by decide) h
  rw [List.count_eq_zero_of_not_mem hnone, List.count_cons_self]
  exact Nat.succ_pos _

theorem LeavesOpen.mem {front : Text} (h : LeavesOpen front) : '[' ∈ front := by
  obtain ⟨back, hback, hcount⟩ := h
  exact hback.subset (List.count_pos_iff.mp (Nat.zero_lt_of_lt hcount))

namespace Scanned

variable {front inside : Text} {depth start : Nat} {p : BracketProblem}

theorem mem_opening_iff (h : Scanned front depth start inside) :
    p ∈ (if depth = 0 then [] else [BracketProblem.nested front.length]) ↔
      ProblemAt front '[' p := by
  split_ifs with hdepth
  · refine iff_of_false List.not_mem_nil fun hproblem ↦ ?_
    cases hproblem with
    | nested hopen => exact absurd (h.pos_depth_iff.mpr hopen) (hdepth ▸ Nat.lt_irrefl 0)
  · rw [List.mem_singleton]
    constructor
    · rintro rfl
      exact .nested (h.pos_depth_iff.mp (Nat.pos_of_ne_zero hdepth))
    · rintro ⟨-⟩
      rfl

theorem mem_unmatched_iff (h : Scanned front 0 start inside) :
    p ∈ [BracketProblem.unmatched front.length] ↔ ProblemAt front ']' p := by
  have hnone : ¬LeavesOpen front := fun hopen ↦
    absurd (h.pos_depth_iff.mpr hopen) (Nat.lt_irrefl 0)
  rw [List.mem_singleton]
  constructor
  · rintro rfl
    exact .unmatched hnone
  · intro hproblem
    cases hproblem with
    | unmatched => rfl
    | blank hbehind hblank => exact absurd (hbehind ▸ leavesOpen_of_isBlankText _ hblank) hnone

theorem mem_closing_iff (h : Scanned front (depth + 1) start inside) :
    p ∈ (if Text.isBlankText inside then [BracketProblem.blank start] else []) ↔
      ProblemAt front ']' p := by
  have hopen : LeavesOpen front := h.pos_depth_iff.mp (Nat.succ_pos depth)
  constructor
  · intro hmem
    split_ifs at hmem with hblank
    · obtain rfl := List.mem_singleton.mp hmem
      rcases h.behind with rfl | ⟨before, hfront, rfl⟩
      · exact absurd hopen.mem h.notMem
      · exact .blank hfront hblank
    · exact absurd hmem List.not_mem_nil
  · intro hproblem
    cases hproblem with
    | unmatched hclosed => exact absurd hopen hclosed
    | blank hbehind hblank =>
      obtain ⟨rfl, rfl⟩ := h.eq_of_behind hbehind (notMem_of_isBlankText (by decide) hblank)
      rw [if_pos hblank]
      exact List.mem_singleton_self _

/-- **One step of the check.** Behind any text, a character adds the problems it brings up, no more
and no fewer, and the check goes on with a state that again says what it should. -/
theorem exists_step (h : Scanned front depth start inside) (c : Char) :
    ∃ found depth' start' inside', Scanned (front ++ [c]) depth' start' inside' ∧
      (∀ p, p ∈ found ↔ ProblemAt front c p) ∧
      ∀ rest, problemsFrom front.length depth start inside (c :: rest) =
        found ++ problemsFrom (front ++ [c]).length depth' start' inside' rest := by
  rw [show (front ++ [c]).length = front.length + 1 from List.length_append]
  by_cases hopens : c = '['
  · subst hopens
    exact ⟨_, _, _, _, h.opened, fun p ↦ h.mem_opening_iff, problemsFrom_open _ _ _ _⟩
  by_cases hcloses : c = ']'
  · subst hcloses
    cases depth with
    | zero =>
      exact ⟨_, _, _, _, h.closed, fun p ↦ h.mem_unmatched_iff, problemsFrom_unmatched _ _ _⟩
    | succ depth =>
      exact ⟨_, _, _, _, h.closed, fun p ↦ h.mem_closing_iff, problemsFrom_close _ _ _ _⟩
  · refine ⟨[], _, _, _, h.passed hopens hcloses, fun p ↦ iff_of_false List.not_mem_nil ?_,
      fun rest ↦ problemsFrom_pass _ _ _ _ rest hopens hcloses⟩
    rintro (- | - | -)
    · exact hopens rfl
    · exact hcloses rfl
    · exact hcloses rfl

end Scanned

/-! ## What the check reports -/

/-- The report on what follows a text: the problems of its characters, each told by all that stands
before it, and the bracket that is open at the end. -/
theorem Scanned.mem_problemsFrom_iff {front inside rest : Text} {depth start : Nat}
    (h : Scanned front depth start inside) {p : BracketProblem} :
    p ∈ problemsFrom front.length depth start inside rest ↔
      (∃ before c after, rest = before ++ c :: after ∧ ProblemAt (front ++ before) c p) ∨
        p = .unclosed ∧ LeavesOpen (front ++ rest) := by
  induction rest generalizing front depth start inside with
  | nil =>
    rw [problemsFrom, List.append_nil, ← h.pos_depth_iff]
    split_ifs with hdepth
    · simp [hdepth]
    · simp [Nat.pos_of_ne_zero hdepth]
  | cons c rest ih =>
    obtain ⟨found, depth', start', inside', hnext, hfound, hstep⟩ := h.exists_step c
    rw [hstep, List.mem_append, hfound, ih hnext, List.append_assoc, List.singleton_append,
      ← or_assoc]
    refine or_congr_left ?_
    constructor
    · rintro (harises | ⟨before, d, after, rfl, harises⟩)
      · exact ⟨[], c, rest, rfl, by rwa [List.append_nil]⟩
      · exact ⟨c :: before, d, after, rfl, by rwa [List.append_cons]⟩
    · rintro ⟨before, d, after, hsplit, harises⟩
      cases before with
      | nil =>
        obtain ⟨rfl, -⟩ := List.cons.inj hsplit
        exact .inl (by rwa [List.append_nil] at harises)
      | cons b before =>
        obtain ⟨rfl, hrest⟩ := List.cons.inj hsplit
        exact .inr ⟨before, d, after, hrest, by rwa [List.append_cons] at harises⟩

theorem mem_problems_iff {path : Text} {p : BracketProblem} :
    p ∈ problems path ↔ HasProblem path p := by
  refine scanned_nil.mem_problemsFrom_iff.trans ⟨?_, fun h ↦ ?_⟩
  · rintro (⟨front, c, back, hsplit, harises⟩ | ⟨rfl, hopen⟩)
    · exact .within hsplit harises
    · exact .unclosed hopen
  · cases h with
    | within hsplit harises => exact .inl ⟨_, _, _, hsplit, harises⟩
    | unclosed hopen => exact .inr ⟨rfl, hopen⟩

/-! ## What the check accepts -/

theorem append_mem_wellBracketed {piece rest : Text} (hpiece : piece ∈ bracketFree + bracketed)
    (hrest : rest ∈ wellBracketed) : piece ++ rest ∈ wellBracketed := by
  obtain ⟨pieces, rfl, hpieces⟩ := Language.mem_kstar.mp hrest
  exact Language.mem_kstar.mpr ⟨piece :: pieces, rfl, List.forall_mem_cons.mpr ⟨hpiece, hpieces⟩⟩

theorem problemsFrom_append_of_bracketFree (h : t ∈ bracketFree) (offset depth start : Nat)
    (inside rest : Text) :
    problemsFrom offset depth start inside (t ++ rest) =
      problemsFrom (offset + t.length) depth start (inside ++ t) rest := by
  induction t generalizing offset inside with
  | nil => simp
  | cons c t ih =>
    obtain ⟨hopen, hclose⟩ := h
    rw [List.mem_cons, not_or] at hopen hclose
    rw [List.cons_append, problemsFrom_pass _ _ _ _ _ (Ne.symm hopen.1) (Ne.symm hclose.1),
      ih ⟨hopen.2, hclose.2⟩, List.append_assoc, List.singleton_append, List.length_cons,
      Nat.add_right_comm, Nat.add_assoc]

theorem problemsFrom_append_of_bracketed {name : Text} (hname : name ∈ bracketFree)
    (hblank : Text.isBlankText name = false) (offset start : Nat) (inside rest : Text) :
    problemsFrom offset 0 start inside ('[' :: (name ++ [']']) ++ rest) =
      problemsFrom (offset + 1 + name.length + 1) 0 offset (name ++ [']']) rest := by
  rw [List.cons_append, problemsFrom_open, if_pos rfl, List.nil_append, List.append_assoc,
    problemsFrom_append_of_bracketFree hname, List.singleton_append, problemsFrom_close,
    List.nil_append, hblank]
  rfl

theorem problemsFrom_of_mem_wellBracketed (h : t ∈ wellBracketed) (offset start : Nat)
    (inside : Text) : problemsFrom offset 0 start inside t = [] := by
  obtain ⟨pieces, rfl, hpieces⟩ := Language.mem_kstar.mp h
  clear h
  induction pieces generalizing offset start inside with
  | nil => rfl
  | cons piece pieces ih =>
    obtain ⟨hpiece, hrest⟩ := List.forall_mem_cons.mp hpieces
    rw [List.flatten_cons]
    rcases hpiece with hfree | ⟨name, hname, hblank, rfl⟩
    · rw [problemsFrom_append_of_bracketFree hfree]
      exact ih _ _ _ hrest
    · rw [problemsFrom_append_of_bracketed hname hblank]
      exact ih _ _ _ hrest

theorem concat_mem_bracketFree (h : t ∈ bracketFree) (hopen : c ≠ '[') (hclose : c ≠ ']') :
    t ++ [c] ∈ bracketFree := by
  constructor
  · rw [List.mem_append, List.mem_singleton, not_or]
    exact ⟨h.1, hopen.symm⟩
  · rw [List.mem_append, List.mem_singleton, not_or]
    exact ⟨h.2, hclose.symm⟩

theorem nil_mem_bracketFree : [] ∈ bracketFree := ⟨List.not_mem_nil, List.not_mem_nil⟩

/-- What passes the check is in order, and so is what passes it behind an open bracket, together
with the bracket and what was read since. A second bracket there would have been reported. -/
theorem mem_wellBracketed_of_problemsFrom (t : Text) :
    (∀ offset start inside, problemsFrom offset 0 start inside t = [] → t ∈ wellBracketed) ∧
    ∀ offset start inside, inside ∈ bracketFree → problemsFrom offset 1 start inside t = [] →
      '[' :: (inside ++ t) ∈ wellBracketed := by
  induction t with
  | nil =>
    refine ⟨fun _ _ _ _ ↦ Language.nil_mem_kstar _, fun _ _ _ _ h ↦ ?_⟩
    cases h
  | cons c t ih =>
    obtain ⟨houtside, hinside⟩ := ih
    by_cases hopens : c = '['
    · subst hopens
      refine ⟨fun offset start inside h ↦ ?_, fun offset start inside _ h ↦ ?_⟩
      · rw [problemsFrom_open] at h
        exact hinside _ _ [] nil_mem_bracketFree h
      · rw [problemsFrom_open] at h
        exact absurd h (List.cons_ne_nil _ _)
    by_cases hcloses : c = ']'
    · subst hcloses
      refine ⟨fun offset start inside h ↦ ?_, fun offset start inside hfree h ↦ ?_⟩
      · rw [problemsFrom_unmatched] at h
        exact absurd h (List.cons_ne_nil _ _)
      · rw [problemsFrom_close] at h
        split_ifs at h with hblank
        · exact absurd h (List.cons_ne_nil _ _)
        · have hbracketed : '[' :: (inside ++ [']']) ∈ bracketed :=
            ⟨inside, hfree, Bool.eq_false_of_not_eq_true hblank, rfl⟩
          rw [List.append_cons]
          exact append_mem_wellBracketed (.inr hbracketed) (houtside _ _ _ h)
    · refine ⟨fun offset start inside h ↦ ?_, fun offset start inside hfree h ↦ ?_⟩
      · rw [problemsFrom_pass _ _ _ _ _ hopens hcloses] at h
        have hfree : [c] ∈ bracketFree := concat_mem_bracketFree nil_mem_bracketFree hopens hcloses
        exact append_mem_wellBracketed (.inl hfree) (houtside _ _ _ h)
      · rw [problemsFrom_pass _ _ _ _ _ hopens hcloses] at h
        rw [List.append_cons]
        exact hinside _ _ _ (concat_mem_bracketFree hfree hopens hcloses) h

/-- **The check of the brackets accepts exactly the routes whose brackets are in order**: texts
without brackets and parameters, one after the other. Whatever stands around it, each bracket that
opens inside another, each one that closes none, each pair with nothing but blanks between and a
bracket that is never closed is reported, and nothing else is. -/
theorem problems_eq_nil_iff_wellBracketed (path : Text) :
    (problems path = [] ↔ path ∈ wellBracketed) ∧
      ∀ p, p ∈ problems path ↔ HasProblem path p := by
  refine ⟨⟨fun h ↦ ?_, fun h ↦ ?_⟩, fun p ↦ mem_problems_iff⟩
  · exact (mem_wellBracketed_of_problemsFrom path).1 0 0 [] h
  · exact problemsFrom_of_mem_wellBracketed h 0 0 []

example : problems "/a[[ ]" = [.nested 3, .blank 3, .unclosed] := by decide

end Route

end PageCompiler
