import PageCompiler.Template.Markup
import PageCompiler.Proofs.Divisions

/-!
# How templates are written

The written forms of handlers, blocks and bound variables, and that the passes which lower them read
just these. The event of a handler is a whole name of an attribute, so that what stands in front of
it counts; a block ends at the first closing behind its opening; a variable is bound by its name
between braces. No tag can begin or end inside of that, so that the pass over bindings leaves tags
alone that have no braces (`Markup.lowerBindings_tag`).
-/

namespace PageCompiler

namespace Markup

/-! ## Blocks -/

/-- How blocks are written: the opening with a blank and a condition, the body, and the first
closing. -/
def WritesBlock : Text.Form ConditionalBlock := fun _ source b ↦
  ∃ blank inside, isBlank blank = true ∧ inside ≠ [] ∧ '\x7d' ∉ inside ∧
    b.condition = Text.trim inside ∧ Text.FirstBehind "\x7b/if\x7d" b.body ∧
    source = "\x7b#if" ++ (blank :: inside ++ '\x7d' :: (b.body ++ "\x7b/if\x7d"))

theorem readCondition_eq_some_iff {t condition rest : Text} :
    readCondition t = some (condition, rest) ↔
      ∃ blank inside, isBlank blank = true ∧ inside ≠ [] ∧ '\x7d' ∉ inside ∧
        condition = Text.trim inside ∧
        t = "\x7b#if" ++ (blank :: inside ++ '\x7d' :: rest) := by
  simp only [readCondition, Option.bind_eq_bind, Option.bind_eq_some_iff]
  constructor
  · rintro ⟨after, hafter, ⟨inside, found⟩, hfound, hmatch⟩
    rw [Text.after?_eq_some_iff] at hafter
    rw [Text.upTo?_eq_some_iff] at hfound
    split at hmatch
    · next blank c cs hinside =>
      dsimp only at hinside hfound
      split_ifs at hmatch with hblank
      obtain ⟨rfl, rfl⟩ := Prod.mk.inj (Option.some.inj hmatch)
      obtain ⟨rfl, hstop⟩ := hfound
      rw [hinside] at hstop hafter ⊢
      refine ⟨blank, c :: cs, hblank, List.cons_ne_nil _ _, fun hmem ↦ ?_,
        Text.trim_cons_of_isBlank hblank _, hafter⟩
      exact hstop (List.mem_cons_of_mem _ hmem)
    · cases hmatch
  · rintro ⟨blank, inside, hblank, hne, hstop, rfl, rfl⟩
    obtain ⟨c, cs, rfl⟩ := List.exists_cons_of_ne_nil hne
    have hinside : '\x7d' ∉ blank :: c :: cs := by
      rw [List.mem_cons, not_or]
      refine ⟨?_, hstop⟩
      rintro rfl
      exact absurd hblank (by decide)
    refine ⟨_, Text.after?_append _ _, _, Text.upTo?_append_cons hinside rest, ?_⟩
    simp only [hblank, if_true, Text.trim_cons_of_isBlank hblank]

theorem reads_block : Text.Reads readBlock WritesBlock where
  ne_nil before source b h := by
    obtain ⟨blank, inside, -, -, -, -, -, rfl⟩ := h
    exact List.cons_ne_nil _ _
  iff before t b rest := by
    have hmark : ("\x7b/if\x7d" : Text) ≠ [] := List.cons_ne_nil _ _
    simp only [readBlock, Option.bind_eq_bind, Option.bind_eq_some_iff]
    constructor
    · rintro ⟨⟨condition, opened⟩, hopened, ⟨body, closed⟩, hclosed, hsome⟩
      obtain ⟨rfl, rfl⟩ := Prod.mk.inj (Option.some.inj hsome)
      obtain ⟨blank, inside, hblank, hne, hstop, hcondition, rfl⟩ :=
        readCondition_eq_some_iff.mp hopened
      obtain ⟨heq, hfirst⟩ := (Text.cut?_eq_some_iff hmark).mp hclosed
      refine ⟨_, ⟨blank, inside, hblank, hne, hstop, hcondition, hfirst, rfl⟩, ?_⟩
      dsimp only at heq ⊢
      rw [heq]
      simp only [List.append_assoc, List.cons_append]
    · rintro ⟨source, ⟨blank, inside, hblank, hne, hstop, hcondition, hfirst, rfl⟩, rfl⟩
      obtain ⟨condition, body⟩ := b
      refine ⟨(condition, body ++ ("\x7b/if\x7d" ++ rest)), ?_, (body, rest), ?_, rfl⟩
      · refine readCondition_eq_some_iff.mpr ⟨blank, inside, hblank, hne, hstop, hcondition, ?_⟩
        simp only [List.append_assoc, List.cons_append]
      · exact (Text.cut?_eq_some_iff hmark).mpr ⟨rfl, hfirst⟩

theorem notMem_condition {before source : Text} {b : ConditionalBlock}
    (h : WritesBlock before source b) : '\x7d' ∉ b.condition := by
  obtain ⟨blank, inside, -, -, hstop, hcondition, -⟩ := h
  rw [hcondition]
  exact fun hmem ↦ hstop ((Text.isInfix_trim inside).subset hmem)

/-! ## Bound variables -/

theorem exists_word_iff {mark t name rest : Text} :
    (∃ after, Text.after? mark t = some after ∧ ∃ found, Text.word? after = some found ∧
      ∃ closed, Text.after? ['\x7d'] found.2 = some closed ∧
        some (found.1, closed) = some (name, rest)) ↔
      Text.IsName name ∧ t = mark ++ (name ++ '\x7d' :: rest) := by
  constructor
  · rintro ⟨after, hafter, ⟨word, found⟩, hword, closed, hclosed, hsome⟩
    obtain ⟨rfl, rfl⟩ := Prod.mk.inj (Option.some.inj hsome)
    rw [Text.after?_eq_some_iff] at hafter hclosed
    dsimp only at hclosed
    refine ⟨.of_word? hword, ?_⟩
    rw [hafter, Text.append_of_run? hword, hclosed]
    rfl
  · rintro ⟨hname, rfl⟩
    have hend : ∀ c, ('\x7d' :: rest).head? = some c → isWord c = false := by
      intro c hc
      obtain rfl := Option.some.inj hc
      decide
    exact ⟨_, Text.after?_append _ _, _, hname.word?_append hend, rest,
      Text.after?_append ['\x7d'] rest, rfl⟩

def WritesBinding : Text.Form Text := fun _ source name ↦
  Text.IsName name ∧ source = "\x7b$" ++ (name ++ ['\x7d'])

/-- A reader of names between a mark and a brace reads what is written so. -/
theorem reads_word (mark : Text) (hne : mark ≠ []) {read : Text → Option (Text × Text)}
    (h : ∀ t name rest, read t = some (name, rest) ↔
      Text.IsName name ∧ t = mark ++ (name ++ '\x7d' :: rest)) :
    Text.Reads read fun _ source name ↦
      Text.IsName name ∧ source = mark ++ (name ++ ['\x7d']) where
  ne_nil before source name hwritten := by
    obtain ⟨-, rfl⟩ := hwritten
    exact List.append_ne_nil_of_left_ne_nil hne _
  iff before t name rest := by
    rw [h]
    constructor
    · rintro ⟨hname, rfl⟩
      refine ⟨_, ⟨hname, rfl⟩, ?_⟩
      simp only [List.append_assoc, List.singleton_append]
    · rintro ⟨source, ⟨hname, rfl⟩, rfl⟩
      refine ⟨hname, ?_⟩
      simp only [List.append_assoc, List.singleton_append]

theorem reads_binding : Text.Reads readBinding WritesBinding := by
  refine reads_word _ (List.cons_ne_nil _ _) fun t name rest ↦ ?_
  simp only [readBinding, Option.bind_eq_bind, Option.bind_eq_some_iff]
  exact exists_word_iff

theorem writesBinding_closed (before source name : Text) (h : WritesBinding before source name) :
    '\x7d' ∈ source := by
  obtain ⟨-, rfl⟩ := h
  exact List.mem_append_right _ (List.mem_append_right _ List.mem_cons_self)

theorem notMem_of_writesBinding {separator : Char} (hword : isWord separator = false)
    (hsign : separator ∉ ("\x7b$\x7d" : Text)) (before source name : Text)
    (h : WritesBinding before source name) : separator ∉ source := by
  obtain ⟨hname, rfl⟩ := h
  intro hmem
  rw [List.mem_append, List.mem_append] at hmem
  rcases hmem with hopen | hname' | hclose
  · exact hsign (List.mem_append_left ['\x7d'] hopen)
  · rw [hname.2 separator hname'] at hword
    cases hword
  · exact hsign (List.mem_append_right "\x7b$".toList hclose)

theorem lowerBindings_of_notMem {t : Text} (h : '\x7d' ∉ t) : lowerBindings t = t :=
  reads_binding.substitute_of_notMem writesBinding_closed h writeBinding

/-- The ends of tags part the text for bindings. -/
theorem lowerBindings_append_cons {separator : Char} (hword : isWord separator = false)
    (hsign : separator ∉ ("\x7b$\x7d" : Text)) (t rest : Text) :
    lowerBindings (t ++ separator :: rest) =
      lowerBindings t ++ separator :: lowerBindings rest :=
  reads_binding.substitute_append_cons (notMem_of_writesBinding hword hsign) writeBinding t rest

theorem lowerBindings_tag {tag : Text} (h : '\x7d' ∉ tag) (t rest : Text) :
    lowerBindings (t ++ '<' :: (tag ++ '>' :: rest)) =
      lowerBindings t ++ '<' :: (tag ++ '>' :: lowerBindings rest) := by
  rw [lowerBindings_append_cons (by decide) (by decide),
    lowerBindings_append_cons (by decide) (by decide), lowerBindings_of_notMem h]

/-! ## Events -/

/-- How handlers are written: the event, which is a whole name of an attribute and begins with a
letter, and the handler as its value. -/
def WritesEvent : Text.Form EventBinding := fun before source b ↦
  (∀ c, before.getLast? = some c → inAttribute c = false) ∧
    (∃ c, b.event.head? = some c ∧ isLatinLetter c = true) ∧
    (∀ c ∈ b.event, inAttribute c = true) ∧ Text.IsName b.handler ∧
    source = b.event ++ ("=\x7b$" ++ (b.handler ++ ['\x7d']))

theorem readHandler_eq_some_iff {t handler rest : Text} :
    readHandler t = some (handler, rest) ↔
      Text.IsName handler ∧ t = "=\x7b$" ++ (handler ++ '\x7d' :: rest) := by
  simp only [readHandler, Option.bind_eq_bind, Option.bind_eq_some_iff]
  exact exists_word_iff

theorem writesEvent_ne_nil (before source : Text) (b : EventBinding)
    (h : WritesEvent before source b) : source ≠ [] := by
  obtain ⟨-, ⟨c, hc, -⟩, -, -, rfl⟩ := h
  obtain ⟨cs, hcs⟩ := List.head?_eq_some_iff.mp hc
  rw [hcs]
  exact List.cons_ne_nil _ _

/-- Whether no name of an attribute goes on from one text into the next. -/
def Apart (before t : Text) : Prop :=
  ∀ c d, before.getLast? = some c → t.head? = some d → inAttribute c = true →
    inAttribute d = false

theorem eventPieces_cons {c : Char} (h : inAttribute c = false) (cs : Text) :
    eventPieces (c :: cs) = .plain c :: eventPieces cs := by
  rw [eventPieces, if_neg (by simp [h])]

theorem eventPieces_name {c : Char} {run rest : Text}
    (hrun : ∀ d ∈ c :: run, inAttribute d = true)
    (hrest : ∀ d, rest.head? = some d → inAttribute d = false)
    (hhandler : (if isLatinLetter c then readHandler rest else none) = none) :
    eventPieces (c :: run ++ rest) = (c :: run).map .plain ++ eventPieces rest := by
  obtain ⟨hc, hcs⟩ := List.forall_mem_cons.mp hrun
  have htake : (run ++ rest).takeWhile inAttribute = run :=
    Text.takeWhile_append_of_stop hcs hrest
  have hdrop : (run ++ rest).dropWhile inAttribute = rest :=
    Text.dropWhile_append_of_stop hcs hrest
  rw [List.cons_append, eventPieces, if_pos hc]
  simp only [htake, hdrop, hhandler]

theorem readHandler_of_not_begins {c : Char} {run rest before : Text}
    (hrun : ∀ d ∈ c :: run, inAttribute d = true)
    (hbefore : ∀ d, before.getLast? = some d → inAttribute d = false)
    (h : ¬ Text.Form.Begins WritesEvent before (c :: run ++ rest)) :
    (if isLatinLetter c then readHandler rest else none) = none := by
  split_ifs with hletter
  · rw [Option.eq_none_iff_forall_not_mem]
    rintro ⟨handler, after⟩ hmem
    obtain ⟨hname, rfl⟩ := readHandler_eq_some_iff.mp hmem
    refine h ⟨_, ⟨c :: run, handler⟩, ?_, hbefore, ⟨c, rfl, hletter⟩, hrun, hname, rfl⟩
    refine ⟨after, ?_⟩
    simp only [List.append_assoc, List.singleton_append]
  · rfl

theorem exists_run {c : Char} (hc : inAttribute c = true) (cs : Text) :
    ∃ run more, cs = run ++ more ∧ (∀ d ∈ c :: run, inAttribute d = true) ∧
      ∀ d, more.head? = some d → inAttribute d = false := by
  refine ⟨cs.takeWhile inAttribute, cs.dropWhile inAttribute,
    List.takeWhile_append_dropWhile.symm, ?_, ?_⟩
  · exact List.forall_mem_cons.mpr ⟨hc, fun d hd ↦ List.mem_takeWhile_imp hd⟩
  · intro d hd
    have hstop := List.head?_dropWhile_not inAttribute cs
    rw [hd] at hstop
    exact hstop

/-- Where no handler is written, everything is passed over. -/
theorem eventPieces_clear {before front rest : Text} (hbefore : Apart before front)
    (hbehind : Apart (before ++ front) rest)
    (h : Text.Form.Clear WritesEvent before front rest) :
    eventPieces (front ++ rest) = front.map .plain ++ eventPieces rest := by
  induction hlength : front.length using Nat.strong_induction_on generalizing before front with
  | _ n ih =>
    subst hlength
    cases front with
    | nil => rfl
    | cons c cs =>
      by_cases hc : inAttribute c = true
      · obtain ⟨run, more, rfl, hrun, hmore⟩ := exists_run hc cs
        have hfresh : ∀ d, before.getLast? = some d → inAttribute d = false := by
          intro d hd
          by_contra hne
          have hstop := hbefore d c hd rfl (Bool.not_eq_false _ ▸ hne)
          rw [hc] at hstop
          cases hstop
        -- The name ends within `front`, since what stands behind does not carry it on.
        have hrest : ∀ d, (more ++ rest).head? = some d → inAttribute d = false := by
          cases more with
          | cons e more => exact hmore
          | nil =>
            intro d hd
            obtain ⟨e, he⟩ : ∃ e, (c :: run).getLast? = some e :=
              ⟨_, List.getLast?_eq_getLast_of_ne_nil (List.cons_ne_nil c run)⟩
            refine hbehind e d ?_ hd (hrun e (List.mem_of_getLast? he))
            rw [List.append_nil, List.getLast?_append, he]
            rfl
        have hbegins := h [] (c :: (run ++ more)) rfl (List.cons_ne_nil _ _)
        rw [List.append_nil, ← List.cons_append, List.append_assoc] at hbegins
        have hshorter : more.length < (c :: (run ++ more)).length := by
          rw [List.length_cons, List.length_append]
          omega
        have hnext : Apart (before ++ c :: run) more := fun _ d _ hd _ ↦ hmore d hd
        rw [← List.cons_append] at h hbehind ⊢
        rw [← List.append_assoc] at hbehind
        have hhandler := readHandler_of_not_begins hrun hfresh hbegins
        rw [List.append_assoc, eventPieces_name hrun hrest hhandler,
          ih more.length hshorter hnext hbehind h.of_append rfl, List.map_append,
          List.append_assoc]
      · have hc : inAttribute c = false := Bool.not_eq_true _ ▸ hc
        have hnext : Apart (before ++ [c]) cs := by
          intro d e hd _ hattribute
          rw [List.getLast?_concat, Option.some.injEq] at hd
          rw [← hd, hc] at hattribute
          cases hattribute
        have hbehind : Apart (before ++ [c] ++ cs) rest := by rwa [List.append_assoc]
        have hcs : Text.Form.Clear WritesEvent (before ++ [c]) cs rest :=
          Text.Form.Clear.of_append h
        rw [List.cons_append, eventPieces_cons hc,
          ih cs.length (Nat.lt_succ_self _) hnext hbehind hcs rfl]
        rfl

theorem eventPieces_found {before source : Text} {b : EventBinding}
    (h : WritesEvent before source b) (rest : Text) :
    eventPieces (source ++ rest) = .found b :: eventPieces rest := by
  obtain ⟨event, handler⟩ := b
  obtain ⟨-, ⟨c, hhead, hletter⟩, hevent, hname, rfl⟩ := h
  obtain ⟨cs, rfl⟩ : ∃ cs, event = c :: cs := List.head?_eq_some_iff.mp hhead
  obtain ⟨hc, hcs⟩ := List.forall_mem_cons.mp hevent
  have hread : readHandler ("=\x7b$" ++ (handler ++ '\x7d' :: rest)) = some (handler, rest) :=
    readHandler_eq_some_iff.mpr ⟨hname, rfl⟩
  have hstop : ∀ d, ("=\x7b$" ++ (handler ++ '\x7d' :: rest)).head? = some d →
      inAttribute d = false := by
    intro d hd
    obtain rfl := Option.some.inj hd
    decide
  have hsource : (c :: cs) ++ ("=\x7b$" ++ (handler ++ ['\x7d'])) ++ rest =
      c :: (cs ++ ("=\x7b$" ++ (handler ++ '\x7d' :: rest))) := by
    simp only [List.append_assoc, List.cons_append, List.nil_append]
  have hlength : rest.length ≤ (cs ++ ("=\x7b$" ++ (handler ++ '\x7d' :: rest))).length := by
    simp only [List.length_append, List.length_cons]
    omega
  rw [hsource, eventPieces, if_pos hc]
  simp only [Text.takeWhile_append_of_stop hcs hstop, Text.dropWhile_append_of_stop hcs hstop,
    hletter, if_true, hread, hlength]

/-- The pass over events goes by the division. -/
theorem eventPieces_eq_assemble {before t last : Text} {parts : List (Text × EventBinding)}
    (hbefore : Apart before t) (h : Text.Divides WritesEvent before t parts last) :
    eventPieces t = Text.assemble parts last := by
  induction h with
  | @last before t hclear =>
    have hend : Apart (before ++ t) [] := fun _ _ _ hd _ ↦ by cases hd
    have hpieces := eventPieces_clear hbefore hend hclear
    rw [List.append_nil, eventPieces, List.append_nil] at hpieces
    exact hpieces
  | @found before front source rest last b parts hclear hform _ ih =>
    have hfront : Apart before front := by
      intro c d hc hd
      refine hbefore c d hc ?_
      rw [List.head?_append, hd]
      rfl
    have hbehind : Apart (before ++ front) (source ++ rest) := by
      intro c d hc _ hattribute
      rw [hform.1 c hc] at hattribute
      cases hattribute
    have hrest : Apart (before ++ (front ++ source)) rest := by
      obtain ⟨-, -, -, -, rfl⟩ := hform
      intro c d hc _ hattribute
      simp only [← List.append_assoc, List.getLast?_concat, Option.some.injEq] at hc
      rw [← hc] at hattribute
      exact absurd hattribute (by decide)
    rw [eventPieces_clear hfront hbehind hclear, eventPieces_found hform, ih hrest,
      Text.assemble_cons]

end Markup

end PageCompiler
