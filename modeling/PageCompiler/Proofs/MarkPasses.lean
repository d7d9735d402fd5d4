import PageCompiler.Proofs.ComponentPasses
import PageCompiler.Proofs.TemplateMarkers

/-!
# Events, blocks and variables in trees

When links and components are lowered, the passes over events, blocks and bound variables are left.
Blocks and variables are found like the tags before them. The pass over events is different, since
the name of an event is a whole run of characters: where plain markup ends within a run it matters
what follows. So trees are gone through from left to right together with what stands behind them,
which has to be settled (`Markup.Settled`): no handler follows the run that it begins with.
-/

namespace PageCompiler

namespace Markup

/-! ## Markup without handlers -/

/-- Whether no handler is read in a text, given what stands behind it. -/
def Unhandled (t rest : Text) : Prop :=
  ∀ front back, t = front ++ back → back ≠ [] → readHandler (back ++ rest) = none

/-- Whether no handler is read behind the run that a text begins with. -/
def Settled (t : Text) : Prop := readHandler (t.dropWhile inAttribute) = none

section Handlers

variable {t rest : Text}

theorem readHandler_of_not_isPrefix (h : ¬ ("=\x7b$" : Text) <+: t) : readHandler t = none := by
  rw [Option.eq_none_iff_forall_not_mem]
  rintro ⟨handler, behind⟩ hmem
  obtain ⟨-, rfl⟩ := readHandler_eq_some_iff.mp hmem
  exact h (List.prefix_append _ _)

theorem unhandled_of_notMem (h : '=' ∉ t) (rest : Text) : Unhandled t rest := by
  rintro front back rfl hback
  obtain ⟨c, back, rfl⟩ := List.exists_cons_of_ne_nil hback
  refine readHandler_of_not_isPrefix (Text.not_isPrefix_of_ne ?_ _ _)
  rintro rfl
  exact h (List.mem_append_right _ List.mem_cons_self)

/-- A handler begins with an equals sign and a mark behind it. -/
theorem unhandled_of_nowhere (h : Text.Nowhere (("\x7b$" : Text) <+: ·) t)
    (hrest : ['='] <:+ t → ¬ ("\x7b$" : Text) <+: rest) : Unhandled t rest := by
  rintro front back rfl hback
  obtain ⟨c, back, rfl⟩ := List.exists_cons_of_ne_nil hback
  refine readHandler_of_not_isPrefix fun hbegins ↦ ?_
  obtain ⟨rfl, hmark⟩ := List.cons_prefix_cons.mp hbegins
  cases back with
  | nil => exact hrest (List.suffix_append _ _) hmark
  | cons d back =>
    have hsplit : front ++ '=' :: d :: back = front ++ ['='] ++ d :: back := by
      rw [List.append_assoc, List.singleton_append]
    exact h.not_of_suffix hsplit (List.cons_ne_nil _ _) rest hmark

theorem settled_nil : Settled [] := rfl

theorem Settled.append (hrest : Settled rest) (h : Unhandled t rest) : Settled (t ++ rest) := by
  rw [Settled, List.dropWhile_append]
  split_ifs with hempty
  · exact hrest
  · refine h (t.takeWhile inAttribute) _ List.takeWhile_append_dropWhile.symm ?_
    simpa using hempty

theorem Settled.eventPieces_eq (h : Settled t) : eventPieces t =
    (t.takeWhile inAttribute).map .plain ++ eventPieces (t.dropWhile inAttribute) := by
  cases t with
  | nil => rfl
  | cons c cs =>
    cases hc : inAttribute c with
    | false =>
      have hne : ¬ inAttribute c = true := by simp [hc]
      rw [List.takeWhile_cons_of_neg hne, List.dropWhile_cons_of_neg hne]
      rfl
    | true =>
      rw [Settled, List.dropWhile_cons_of_pos hc] at h
      obtain ⟨run, more, rfl, hrun, hmore⟩ := exists_run hc cs
      have hrun' := (List.forall_mem_cons.mp hrun).2
      rw [Text.dropWhile_append_of_stop hrun' hmore] at h
      rw [List.takeWhile_cons_of_pos hc, List.dropWhile_cons_of_pos hc,
        Text.takeWhile_append_of_stop hrun' hmore, Text.dropWhile_append_of_stop hrun' hmore,
        ← List.cons_append]
      refine eventPieces_name hrun hmore ?_
      rw [h, ite_self]

/-- Markup without handlers is passed over, where what stands behind it is settled. -/
theorem eventPieces_append (h : Unhandled t rest) (hrest : Settled rest) :
    eventPieces (t ++ rest) = t.map .plain ++ eventPieces rest := by
  induction hlength : t.length using Nat.strong_induction_on generalizing t with
  | _ n ih =>
    subst hlength
    cases t with
    | nil => rfl
    | cons c cs =>
      have hshorter : ∀ front back, c :: cs = front ++ back → Unhandled back rest := by
        rintro front back heq front' back' rfl
        refine h (front ++ front') back' ?_
        rw [heq, List.append_assoc]
      cases hc : inAttribute c with
      | false =>
        rw [List.cons_append, eventPieces_cons hc,
          ih cs.length (Nat.lt_succ_self _) (hshorter [c] cs rfl) rfl]
        rfl
      | true =>
        obtain ⟨run, more, rfl, hrun, hmore⟩ := exists_run hc cs
        by_cases hnil : more = []
        · -- The run goes on into what stands behind.
          subst hnil
          have hstop : ∀ d, (rest.dropWhile inAttribute).head? = some d →
              inAttribute d = false := by
            intro d hd
            have hstop := List.head?_dropWhile_not inAttribute rest
            rw [hd] at hstop
            exact hstop
          have hall : ∀ d ∈ c :: (run ++ rest.takeWhile inAttribute), inAttribute d = true := by
            rw [← List.cons_append]
            exact List.forall_mem_append.mpr ⟨hrun, fun d hd ↦ List.mem_takeWhile_imp hd⟩
          have hjoined := eventPieces_name hall hstop (by rw [hrest, ite_self])
          rw [List.cons_append, List.append_assoc, List.takeWhile_append_dropWhile] at hjoined
          rw [List.append_nil, List.cons_append, hjoined, hrest.eventPieces_eq]
          simp
        · obtain ⟨d, more, rfl⟩ := List.exists_cons_of_ne_nil hnil
          have hnone : readHandler (d :: more ++ rest) = none :=
            h (c :: run) (d :: more) rfl (List.cons_ne_nil _ _)
          have hless : (d :: more).length < (c :: (run ++ d :: more)).length := by
            simp only [List.length_cons, List.length_append]
            omega
          have hhead : ∀ e, (d :: more ++ rest).head? = some e → inAttribute e = false := hmore
          have hpassed := eventPieces_name hrun hhead (by rw [hnone, ite_self])
          rw [← List.cons_append, List.append_assoc, hpassed,
            ih _ hless (hshorter (c :: run) (d :: more) rfl) rfl, List.map_append,
            List.append_assoc]

end Handlers

/-! ## Trees without tags -/

variable {names : List Text} {T : Tree}

theorem Tree.Sound.of_leaf {pending : List Text} {l : Leaf} {rest : Tree}
    (h : (Tree.leaf l rest).Sound names pending) : rest.Sound names pending where
  leaf := (List.forall_mem_cons.mp h.leaf).2
  frame := h.frame
  nested := h.nested
  apart := (List.forall_mem_cons.mp h.apart).2

variable {f : Frame} {b : EventBinding}

theorem Tree.Sound.of_frame {pending : List Text} {body rest : Tree}
    (h : (Tree.frame f body rest).Sound names pending) :
    body.Sound names pending ∧ rest.Sound names pending := by
  obtain ⟨hbody, hrest⟩ := List.forall_mem_append.mp h.leaf
  obtain ⟨hbody', hrest'⟩ := List.forall_mem_append.mp (List.forall_mem_cons.mp h.frame).2
  obtain ⟨hnested, hnested'⟩ := List.forall_mem_append.mp (List.forall_mem_cons.mp h.nested).2
  obtain ⟨hapart, hapart'⟩ := List.forall_mem_append.mp h.apart
  exact ⟨⟨hbody, hbody', hnested, hapart⟩, hrest, hrest', hnested', hapart'⟩

theorem nowhere_brace {sign other : Char} (hne : other ≠ sign) (mark : Text) {t : Text}
    (ht : '\x7b' ∉ other :: t) :
    Text.Nowhere ('\x7b' :: sign :: mark <+: ·) ('\x7b' :: other :: t) := by
  refine ⟨fun rest hbegins ↦ ?_, Text.nowhere_of_notMem (fun c s hc ↦ ?_) ht⟩
  · exact Text.not_isPrefix_of_ne hne _ _ (List.cons_prefix_cons.mp hbegins).2
  · exact Text.not_isPrefix_of_ne hc _ s

theorem nowhere_blockOpening {sign blank : Char} (hsign : '#' ≠ sign) (mark : Text)
    {condition : Text} (hblank : isBlank blank = true) (h : '\x7b' ∉ condition) :
    Text.Nowhere ('\x7b' :: sign :: mark <+: ·) (Frame.block blank condition).opening := by
  have hne : '\x7b' ≠ blank := by
    rintro rfl
    exact absurd hblank (by decide)
  have hbehind : '\x7b' ∉ '#' :: 'i' :: 'f' :: (blank :: condition ++ ['\x7d']) := by
    simp [h, hne]
  exact nowhere_brace hsign mark hbehind

theorem nowhere_blockClosing {sign : Char} (hsign : '/' ≠ sign) (mark : Text) :
    Text.Nowhere ('\x7b' :: sign :: mark <+: ·) ("\x7b/if\x7d" : Text) := by
  have hbehind : '\x7b' ∉ ['/', 'i', 'f', '\x7d'] := by decide
  exact nowhere_brace hsign mark hbehind

theorem nowhere_binding {sign : Char} (hsign : '$' ≠ sign) (mark : Text) {name : Text}
    (hname : Text.IsName name) :
    Text.Nowhere ('\x7b' :: sign :: mark <+: ·) ("\x7b$" ++ (name ++ ['\x7d'])) := by
  have hbehind : '\x7b' ∉ '$' :: (name ++ ['\x7d']) := by
    have hmem := hname.notMem_of_not_isWord (show isWord '\x7b' = false by decide)
    simp [hmem]
  exact nowhere_brace hsign mark hbehind

theorem nowhere_event {sign front : Char} (hsign : '$' ≠ sign) (mark : Text)
    (hfront : front ≠ '\x7b') (hevent : ∀ c ∈ b.event, inAttribute c = true)
    (hhandler : Text.IsName b.handler) :
    Text.Nowhere ('\x7b' :: sign :: mark <+: ·) (Leaf.event front b).source := by
  have hname : '\x7b' ∉ front :: (b.event ++ ['=']) := by
    have hmem : '\x7b' ∉ b.event := fun hmem ↦ absurd (hevent _ hmem) (by decide)
    simp [hmem, Ne.symm hfront]
  have hfirst : Text.Nowhere ('\x7b' :: sign :: mark <+: ·) (front :: (b.event ++ ['='])) :=
    Text.nowhere_of_notMem (fun c s hc ↦ Text.not_isPrefix_of_ne hc _ s) hname
  have hwhole := hfirst.append (nowhere_binding hsign mark hhandler)
  rw [List.cons_append, List.append_assoc] at hwhole
  exact hwhole

/-- What stands around a frame has no handlers and does not begin with a variable. -/
theorem Frame.Sound.unhandled (h : f.Sound names []) (rest : Text) :
    (Unhandled f.opening rest ∧ ¬ ("\x7b$" : Text) <+: f.opening ++ rest) ∧
      Unhandled f.closing rest ∧ ¬ ("\x7b$" : Text) <+: f.closing ++ rest := by
  have hclear : ∀ t : Text, Text.Nowhere (("\x7b$" : Text) <+: ·) t → t ≠ [] → ¬ ['='] <:+ t →
      Unhandled t rest ∧ ¬ ("\x7b$" : Text) <+: t ++ rest := fun t ht hne hends ↦
    ⟨unhandled_of_nowhere ht fun hequals ↦ absurd hequals hends, ht.not_begins hne rest⟩
  cases f with
  | raw opening closing =>
    obtain ⟨⟨hopening, hne, hends⟩, hclosing, hne', hends'⟩ := h
    exact ⟨hclear _ hopening.bound hne hends, hclear _ hclosing.bound hne' hends'⟩
  | element name attributes => cases h.1
  | block blank condition =>
    obtain ⟨hblank, -, hopen, -⟩ := h
    have hends : ¬ ['='] <:+ (block blank condition).opening := by
      rw [opening, ← List.append_assoc]
      exact Text.not_ends_append (by decide) (by decide) _
    have hends' : ¬ ['='] <:+ ("\x7b/if\x7d" : Text) := by decide
    exact ⟨hclear _ (nowhere_blockOpening (by decide) [] hblank hopen) (List.cons_ne_nil _ _) hends,
      hclear _ (nowhere_blockClosing (by decide) []) (List.cons_ne_nil _ _) hends'⟩

/-! ## Events -/

def eventPass : Pass EventBinding where
  leaf
    | .event front b => [.plain front, .found b]
    | l => l.source.map .plain

/-- A handler becomes the attribute that marks it. -/
def Leaf.lowerEvent : Leaf → Leaf
  | event front b => text (front :: b.render)
  | l => l

/-- A tree that does not begin with a variable does not look as if it did. -/
theorem Tree.not_bound_source (h : T.Sound names []) (hbound : T.beginsBound = false) {tail : Text}
    (htail : ¬ ("\x7b$" : Text) <+: tail) : ¬ ("\x7b$" : Text) <+: T.source ++ tail := by
  induction T with
  | nil => exact htail
  | leaf l rest ih =>
    have hl := h.leaf l List.mem_cons_self
    rw [source, List.append_assoc]
    cases l with
    | text t =>
      cases t with
      | nil => exact ih h.of_leaf hbound
      | cons c t => exact hl.bound.not_begins (List.cons_ne_nil _ _) _
    | placeholder key => exact hl.elim
    | use name attributes => cases hl.1
    | event front b => exact Text.not_isPrefix_of_ne hl.2.1 _ _
    | binding name => cases hbound
  | frame f body rest =>
    have hf := h.frame (f, body) List.mem_cons_self
    rw [source, List.append_assoc, List.append_assoc]
    exact (hf.unhandled _).1.2

theorem eventPieces_handler {front : Char}
    (h : WritesEvent [front] (b.event ++ ("=\x7b$" ++ (b.handler ++ ['\x7d']))) b) (rest : Text) :
    eventPieces ((Leaf.event front b).source ++ rest) =
        [.plain front, .found b] ++ eventPieces rest ∧
      Settled ((Leaf.event front b).source ++ rest) := by
  have hfront : inAttribute front = false := h.1 front rfl
  rw [Leaf.source, List.cons_append]
  constructor
  · rw [eventPieces_cons hfront, eventPieces_found h]
    rfl
  · have hne : ¬ inAttribute front = true := by simp [hfront]
    rw [Settled, List.dropWhile_cons_of_neg hne]
    obtain ⟨-, ⟨c, hhead, hletter⟩, -⟩ := h
    obtain ⟨cs, hevent⟩ := List.head?_eq_some_iff.mp hhead
    refine readHandler_of_not_isPrefix fun hbegins ↦ ?_
    rw [hevent] at hbegins
    have hbrace : '\x7b' = c :=
      (List.cons_prefix_cons.mp (List.cons_prefix_cons.mp hbegins).2).1
    rw [← hbrace] at hletter
    exact absurd hletter (by decide)

/-- **Handlers are found where the tree has them.** -/
theorem Tree.eventPieces_source_append (h : T.Sound names []) {tail : Text}
    (hsettled : Settled tail) (hbound : ¬ ("\x7b$" : Text) <+: tail) :
    eventPieces (T.source ++ tail) = T.pieces eventPass ++ eventPieces tail ∧
      Settled (T.source ++ tail) := by
  have hpassed : ∀ {t rest : Text}, Unhandled t rest → Settled rest →
      eventPieces (t ++ rest) = t.map .plain ++ eventPieces rest ∧ Settled (t ++ rest) :=
    fun ht hrest ↦ ⟨eventPieces_append ht hrest, hrest.append ht⟩
  induction T generalizing tail with
  | nil => exact ⟨rfl, hsettled⟩
  | leaf l rest ih =>
    have hl := h.leaf l List.mem_cons_self
    obtain ⟨hpieces, hrest⟩ := ih h.of_leaf hsettled hbound
    have hleaf : eventPieces (l.source ++ (rest.source ++ tail)) =
        eventPass.leaf l ++ eventPieces (rest.source ++ tail) ∧
          Settled (l.source ++ (rest.source ++ tail)) := by
      cases l with
      | text t =>
        refine hpassed (unhandled_of_nowhere hl.bound fun hends ↦ ?_) hrest
        exact not_bound_source h.of_leaf (h.apart _ List.mem_cons_self hends) hbound
      | placeholder key => exact hl.elim
      | use name attributes => cases hl.1
      | event front b => exact eventPieces_handler hl.2.2 _
      | binding name =>
        refine hpassed (unhandled_of_notMem ?_ _) hrest
        have hmem := Text.IsName.notMem_of_not_isWord hl (show isWord '=' = false by decide)
        simp [Leaf.source, hmem]
    rw [source, pieces, List.append_assoc, List.append_assoc, hleaf.1, hpieces]
    exact ⟨rfl, hleaf.2⟩
  | frame f body rest ihBody ihRest =>
    have hf := h.frame (f, body) List.mem_cons_self
    obtain ⟨hbody, hrest⟩ := h.of_frame
    obtain ⟨hrestPieces, hrestSettled⟩ := ihRest hrest hsettled hbound
    obtain ⟨-, hclosing, hunbound⟩ := hf.unhandled (rest.source ++ tail)
    obtain ⟨hclosingPieces, hclosingSettled⟩ := hpassed hclosing hrestSettled
    obtain ⟨hbodyPieces, hbodySettled⟩ := ihBody hbody hclosingSettled hunbound
    obtain ⟨⟨hopening, -⟩, -⟩ := hf.unhandled (body.source ++ (f.closing ++ (rest.source ++ tail)))
    obtain ⟨hopeningPieces, hopeningSettled⟩ := hpassed hopening hbodySettled
    have hsource : (frame f body rest).source ++ tail =
        f.opening ++ (body.source ++ (f.closing ++ (rest.source ++ tail))) := by
      simp only [source, List.append_assoc]
    have hpieces : (frame f body rest).pieces eventPass = f.opening.map .plain ++
        (body.pieces eventPass ++ f.closing.map .plain) ++ rest.pieces eventPass := rfl
    rw [hsource, hpieces, hopeningPieces, hbodyPieces, hclosingPieces, hrestPieces]
    simp only [List.append_assoc]
    exact ⟨trivial, hopeningSettled⟩

theorem Tree.eventPieces_source (h : T.Sound names []) :
    eventPieces T.source = T.pieces eventPass := by
  have hnone : ¬ ("\x7b$" : Text) <+: [] := by decide
  obtain ⟨hpieces, -⟩ := eventPieces_source_append h settled_nil hnone
  rwa [List.append_nil, eventPieces, List.append_nil] at hpieces

theorem Tree.lowerEvents_source (h : T.Sound names []) :
    lowerEvents T.source = (T.map Leaf.lowerEvent id).source := by
  have hwrites : eventPass.Writes EventBinding.render Leaf.lowerEvent id T := by
    refine ⟨fun l _ ↦ ?_, fun _ _ _ ↦ rfl, fun q _ a hf ↦ by cases hf⟩
    cases l with
    | event front b => exact congrArg (front :: ·) (List.append_nil _)
    | _ => exact Text.flatMap_write_map_plain _ _
  rw [lowerEvents, eventPieces_source h, ← hwrites.flatMap_pieces]
  congr 1
  funext piece
  cases piece <;> rfl

theorem notMem_event {front : Char} {pending : List Text}
    (h : (Leaf.event front b).Sound names pending) :
    '<' ∉ front :: b.render ∧ '\x7b' ∉ front :: b.render := by
  obtain ⟨hfront, hfront', -, -, hevent, hhandler, -⟩ := h
  have hnone : ∀ c, c ≠ front → isWord c = false → c ≠ '-' → c ∉ ("data-click" : Text) →
      c ∉ ("data-event-" : Text) → c ∉ ("=\"$" : Text) → c ∉ ("\"" : Text) →
      c ∉ front :: b.render := by
    intro c hc hword hhyphen h₁ h₂ h₃ h₄
    have hin : c ∉ b.event := by
      intro hmem
      have hattribute := hevent c hmem
      simp [inAttribute, hword, hhyphen] at hattribute
    have hmarker : c ∉ b.marker := by
      rw [EventBinding.marker]
      split_ifs
      · exact h₁
      · exact fun hmem ↦ (List.mem_append.mp hmem).elim h₂ hin
    simp only [EventBinding.render, List.mem_cons, List.mem_append, not_or]
    exact ⟨hc, ⟨⟨hmarker, h₃⟩, hhandler.notMem_of_not_isWord hword⟩, h₄⟩
  exact ⟨hnone _ (Ne.symm hfront) (by decide) (by decide) (by decide) (by decide) (by decide)
      (by decide),
    hnone _ (Ne.symm hfront') (by decide) (by decide) (by decide) (by decide) (by decide)
      (by decide)⟩

theorem inert_event {front : Char} {pending : List Text}
    (h : (Leaf.event front b).Sound names pending) : Inert names (front :: b.render) :=
  inert_of_notMem (notMem_event h).1 (notMem_event h).2

theorem Tree.Sound.lowerEvents (h : T.Sound names []) :
    (T.map Leaf.lowerEvent id).Sound names [] ∧
      ∀ l ∈ (T.map Leaf.lowerEvent id).leaves, l.event? = none := by
  refine ⟨h.map (fun l _ ↦ ?_) (fun l hl ↦ ?_) (fun _ _ ↦ .inl rfl) h.frame, ?_⟩
  · cases l with
    | event front b =>
      refine .inr ⟨front :: b.render, fun u ↦ ?_, fun name ↦ ?_, rfl, List.cons_ne_nil _ _, ?_⟩
      · rintro ⟨⟩
      · rintro ⟨⟩
      · exact Text.not_ends_append (by decide) (by decide)
          (front :: (b.marker ++ "=\"$" ++ b.handler))
    | _ => exact .inl rfl
  · have hsound := h.leaf l hl
    cases l with
    | event front b => exact inert_event hsound
    | _ => exact hsound
  · rw [Tree.leaves_map]
    refine List.forall_mem_map.mpr fun l _ ↦ ?_
    cases l <;> rfl

theorem Tree.eventBindings_source (h : T.Sound names []) :
    eventBindings T.source = (T.leaves.filterMap Leaf.event?).eraseDups := by
  have hvalue : found? = Piece.value? := by
    funext piece
    cases piece <;> rfl
  rw [eventBindings_eq_eraseDups, eventPieces_source h, hvalue,
    Pass.values_of_leaves (fun _ ↦ rfl) fun l ↦ ?_]
  cases l with
  | event front b => rfl
  | _ => exact Text.filterMap_value?_map_plain _

/-! ## Blocks -/

def blockPass : Pass ConditionalBlock where
  frame f := f.condition?.map ConditionalBlock.mk

def blockOpening (condition : Text) : Text :=
  "<div data-if=\"" ++ Text.escape condition ++ "\" style=\"display: none;\">"

/-- A block becomes plain markup. -/
def Frame.lowerBlock (f : Frame) : Frame :=
  match f.condition? with
  | some condition => raw (blockOpening condition) "</div>"
  | none => f

theorem Frame.lowerBlock_of_none (h : f.condition? = none) : f.lowerBlock = f := by
  rw [lowerBlock, h]

theorem isPrefix_of_readBlock {s : Text} (h : readBlock s ≠ none) : ("\x7b#if" : Text) <+: s := by
  obtain ⟨⟨b, rest⟩, hread⟩ := Option.ne_none_iff_exists'.mp h
  obtain ⟨source, ⟨blank, inside, -, -, -, -, -, rfl⟩, rfl⟩ :=
    (reads_block.iff [] s b rest).mp hread
  rw [List.append_assoc]
  exact List.prefix_append _ _

theorem Leaf.Sound.nowhere_block {l : Leaf} (h : l.Sound names []) :
    Text.Nowhere (("\x7b#if" : Text) <+: ·) l.source ∧
      Text.Nowhere (("\x7b/if\x7d" : Text) <+: ·) l.source := by
  cases l with
  | text t => exact ⟨h.opened, h.closed⟩
  | placeholder key => exact h.elim
  | use name attributes => cases h.1
  | event front b =>
    obtain ⟨-, hfront, -, -, hevent, hhandler, -⟩ := h
    exact ⟨nowhere_event (by decide) _ hfront hevent hhandler,
      nowhere_event (by decide) _ hfront hevent hhandler⟩
  | binding name => exact ⟨nowhere_binding (by decide) _ h, nowhere_binding (by decide) _ h⟩

theorem Frame.Sound.nowhere_block (h : f.Sound names []) (hf : f.condition? = none) :
    (Text.Nowhere (("\x7b#if" : Text) <+: ·) f.opening ∧
      Text.Nowhere (("\x7b#if" : Text) <+: ·) f.closing) ∧
    Text.Nowhere (("\x7b/if\x7d" : Text) <+: ·) f.opening ∧
      Text.Nowhere (("\x7b/if\x7d" : Text) <+: ·) f.closing := by
  cases f with
  | raw opening closing =>
    obtain ⟨⟨hopening, -⟩, hclosing, -⟩ := h
    exact ⟨⟨hopening.opened, hclosing.opened⟩, hopening.closed, hclosing.closed⟩
  | element name attributes => cases h.1
  | block blank condition => cases hf

section Blocks

variable (h : T.Sound names [])

include h

theorem Tree.Sound.condition?_inside {q : Frame × Tree} (hq : q ∈ T.frames) {condition : Text}
    (hcondition : q.1.condition? = some condition) : ∀ r ∈ q.2.frames, r.1.condition? = none := by
  obtain ⟨f, body⟩ := q
  cases f with
  | block blank inside =>
    rintro ⟨g, inner⟩ hr
    cases g with
    | block blank' inside' => exact absurd rfl (h.nested _ hq _ rfl _ hr)
    | _ => rfl
  | _ => cases hcondition

/-- Neither opening nor closing of a block begins in a block. -/
theorem Tree.Sound.nowhere_body {q : Frame × Tree} (hq : q ∈ T.frames) {condition : Text}
    (hcondition : q.1.condition? = some condition) :
    Text.Nowhere (("\x7b#if" : Text) <+: ·) q.2.source ∧
      Text.Nowhere (("\x7b/if\x7d" : Text) <+: ·) q.2.source := by
  obtain ⟨hleaves, hframes⟩ := subset_of_mem_frames hq
  have hinside := h.condition?_inside hq hcondition
  exact ⟨nowhere_source (fun l hl ↦ (h.leaf l (hleaves hl)).nowhere_block.1)
      fun r hr ↦ ((h.frame r (hframes hr)).nowhere_block (hinside r hr)).1,
    nowhere_source (fun l hl ↦ (h.leaf l (hleaves hl)).nowhere_block.2)
      fun r hr ↦ ((h.frame r (hframes hr)).nowhere_block (hinside r hr)).2⟩

theorem blockPass_fits : blockPass.Fits readBlock T := by
  refine ⟨fun l hl ↦ ?_, fun q hq hf ↦ ?_, ?_⟩
  · exact .of_nowhere ((h.leaf l hl).nowhere_block.1.mono fun _ ↦ isPrefix_of_readBlock)
  · obtain ⟨⟨hopening, hclosing⟩, -⟩ :=
      (h.frame q hq).nowhere_block (Option.map_eq_none_iff.mp hf)
    exact ⟨hopening.mono fun _ ↦ isPrefix_of_readBlock,
      hclosing.mono fun _ ↦ isPrefix_of_readBlock⟩
  · rintro ⟨f, body⟩ hq a hf
    obtain ⟨condition, hcondition, rfl⟩ := Option.map_eq_some_iff.mp hf
    obtain ⟨-, hclosed⟩ := h.nowhere_body hq hcondition
    have hsound := h.frame _ hq
    cases f with
    | block blank inside =>
      obtain rfl := Option.some.inj hcondition
      obtain ⟨hblank, hne, -, hstop, -⟩ := hsound
      refine .found (List.cons_ne_nil _ _) fun rest ↦ (reads_block.iff [] _ _ _).mpr
        ⟨_, ⟨blank, inside, hblank, hne, hstop, rfl, hclosed.firstBehind, ?_⟩, rfl⟩
      simp only [Frame.opening, Frame.closing, List.append_assoc, List.singleton_append]
    | _ => cases hcondition

/-- **The pass over blocks changes the frames of a tree.** -/
theorem Tree.lowerBlocks_source : lowerBlocks T.source = (T.map id Frame.lowerBlock).source := by
  refine Pass.substitute_source (blockPass_fits h) ⟨fun l _ ↦ ?_, fun q _ hf ↦ ?_, ?_⟩
  · exact Text.flatMap_write_map_plain _ l.source
  · exact Frame.lowerBlock_of_none (Option.map_eq_none_iff.mp hf)
  · rintro ⟨f, body⟩ hq a hf
    obtain ⟨condition, hcondition, rfl⟩ := Option.map_eq_some_iff.mp hf
    refine ⟨?_, map_eq_self (fun _ _ ↦ rfl) fun r hr ↦ ?_⟩
    · rw [Frame.lowerBlock, hcondition]
      exact List.append_assoc _ _ _
    · exact Frame.lowerBlock_of_none (h.condition?_inside hq hcondition r hr)

theorem Tree.blocks_source :
    blocks T.source = T.frames.filterMap (fun q ↦
      q.1.condition?.map fun condition ↦ ⟨condition, q.2.source⟩) ∧
    ∀ b ∈ blocks T.source, b.isNested = false := by
  have hblocks : blocks T.source = T.frames.filterMap (fun q ↦
      q.1.condition?.map fun condition ↦ ⟨condition, q.2.source⟩) := by
    rw [blocks, Text.findAll_eq_filterMap, (blockPass_fits h).cuts.pieces_eq,
      Pass.values_of_frames (fun l ↦ Text.filterMap_value?_map_plain _)]
    · refine List.filterMap_congr fun q _ ↦ ?_
      rw [blockPass, Option.map_map]
      rfl
    · intro q hq a hf r hr
      obtain ⟨condition, hcondition, -⟩ := Option.map_eq_some_iff.mp hf
      exact Option.map_eq_none_iff.mpr (h.condition?_inside hq hcondition r hr)
  refine ⟨hblocks, fun b hb ↦ ?_⟩
  rw [hblocks] at hb
  obtain ⟨q, hq, hmap⟩ := List.mem_filterMap.mp hb
  obtain ⟨condition, hcondition, rfl⟩ := Option.map_eq_some_iff.mp hmap
  rw [ConditionalBlock.isNested, Bool.eq_false_iff, ne_eq, Text.contains_iff]
  exact (h.nowhere_body hq hcondition).1.not_isInfix (List.cons_ne_nil _ _)

end Blocks

/-! ## Bound variables -/

def bindingPass : Pass Text where
  leaf
    | .binding name => [.found name]
    | l => l.source.map .plain

/-- A bound variable becomes the element that shows it. -/
def Leaf.lowerBinding : Leaf → Leaf
  | binding name => text (writeBinding name)
  | l => l

theorem isPrefix_of_readBinding {s : Text} (h : readBinding s ≠ none) : ("\x7b$" : Text) <+: s := by
  obtain ⟨⟨name, rest⟩, hread⟩ := Option.ne_none_iff_exists'.mp h
  obtain ⟨source, ⟨-, rfl⟩, rfl⟩ := (reads_binding.iff [] s name rest).mp hread
  rw [List.append_assoc]
  exact List.prefix_append _ _

theorem Frame.Sound.nowhere_lowerBlock (h : f.Sound names []) :
    Text.Nowhere (("\x7b$" : Text) <+: ·) f.lowerBlock.opening ∧
      Text.Nowhere (("\x7b$" : Text) <+: ·) f.lowerBlock.closing := by
  have hclear : ∀ t : Text, '\x7b' ∉ t → Text.Nowhere (("\x7b$" : Text) <+: ·) t := fun t ht ↦
    Text.nowhere_of_notMem (fun c s hc ↦ Text.not_isPrefix_of_ne hc _ s) ht
  cases f with
  | raw opening closing =>
    obtain ⟨⟨hopening, -⟩, hclosing, -⟩ := h
    exact ⟨hopening.bound, hclosing.bound⟩
  | element name attributes => cases h.1
  | block blank condition =>
    obtain ⟨-, -, hopen, -⟩ := h
    have hescape : '\x7b' ∉ Text.escape (Text.trim condition) := by
      intro hmem
      rcases Text.mem_of_mem_escape hmem with ⟨hcondition, -⟩ | hsign
      · exact hopen ((Text.isInfix_trim condition).subset hcondition)
      · exact absurd hsign (by decide)
    refine ⟨hclear _ ?_, hclear _ (show '\x7b' ∉ ("</div>" : Text) by decide)⟩
    have hparts : '\x7b' ∉ ("<div data-if=\"" : Text) ∧
        '\x7b' ∉ ("\" style=\"display: none;\">" : Text) := by decide
    intro hmem
    rcases List.mem_append.mp hmem with hmem | hend
    · exact (List.mem_append.mp hmem).elim hparts.1 hescape
    · exact hparts.2 hend

section Bindings

variable (h : T.Sound names []) (hevents : ∀ l ∈ T.leaves, l.event? = none)

include h hevents

theorem bindingPass_fits : bindingPass.Fits readBinding (T.map id Frame.lowerBlock) := by
  refine ⟨?_, ?_, ?_⟩
  · rw [Tree.leaves_map, List.map_id]
    intro l hl
    have hsound := h.leaf l hl
    cases l with
    | text t => exact .of_nowhere (hsound.bound.mono fun _ ↦ isPrefix_of_readBinding)
    | placeholder key => exact hsound.elim
    | use name attributes => cases hsound.1
    | event front b => cases hevents _ hl
    | binding name =>
      refine .found (List.cons_ne_nil _ _) fun rest ↦ ?_
      exact (reads_binding.iff [] _ _ _).mpr ⟨_, ⟨hsound, rfl⟩, rfl⟩
  · rw [Tree.frames_map]
    refine List.forall_mem_map.mpr fun q hq _ ↦ ?_
    obtain ⟨hopening, hclosing⟩ := (h.frame q hq).nowhere_lowerBlock
    exact ⟨hopening.mono fun _ ↦ isPrefix_of_readBinding,
      hclosing.mono fun _ ↦ isPrefix_of_readBinding⟩
  · rintro q - a hf
    cases hf

/-- **The pass over bound variables changes the leaves of a tree.** -/
theorem Tree.lowerBindings_source : lowerBindings (T.map id Frame.lowerBlock).source =
    ((T.map id Frame.lowerBlock).map Leaf.lowerBinding id).source := by
  refine Pass.substitute_source (bindingPass_fits h hevents)
    ⟨fun l _ ↦ ?_, fun _ _ _ ↦ rfl, fun q _ a hf ↦ by cases hf⟩
  cases l with
  | binding name => exact List.append_nil _
  | _ => exact Text.flatMap_write_map_plain _ _

theorem Tree.bindings_source :
    bindings (T.map id Frame.lowerBlock).source = distinct (T.leaves.filterMap Leaf.binding?) := by
  rw [bindings, Text.findAll_eq_filterMap, (bindingPass_fits h hevents).cuts.pieces_eq,
    Pass.values_of_leaves (fun _ ↦ rfl) fun l ↦ ?_, leaves_map, List.map_id]
  cases l with
  | binding name => rfl
  | _ => exact Text.filterMap_value?_map_plain _

end Bindings

end Markup

end PageCompiler
