import PageCompiler.Proofs.ProgramLines
import PageCompiler.Proofs.ScriptClosing

/-!
# Markers in the markup and in the program

A handler becomes an attribute that marks its element, and a bound variable an element with a marker
of its own. The program finds the elements by these attributes: it listens on those with the marker
of a declared handler, and updates those with the marker of a declared variable. Here is that the
two sides agree. A pair of an event and a handler is known by its marker (`Markup.render_inj`), so
that each gets its own listeners; one whose handler is not declared gets a warning in their place.
-/

namespace PageCompiler

/-! ## Handlers in the markup -/

namespace Markup

variable {t last : Text} {parts : List (Text × EventBinding)}

theorem apart_nil (t : Text) : Apart [] t := by
  intro c d hc
  cases hc

theorem lowerEvents_of_divides (h : Text.Divides WritesEvent [] t parts last) :
    lowerEvents t = parts.flatMap (fun part ↦ part.1 ++ part.2.render) ++ last := by
  rw [lowerEvents, eventPieces_eq_assemble (apart_nil t) h]
  exact Text.flatMap_assemble (fun _ ↦ rfl) parts last

/-- What a piece of markup has in it. -/
def found? : Piece EventBinding → Option EventBinding
  | .plain _ => none
  | .found b => some b

theorem eventBindings_eq_eraseDups (t : Text) :
    eventBindings t = ((eventPieces t).filterMap found?).eraseDups := by
  refine foldl_gathered (fun seen piece hpiece ↦ ?_) (fun seen piece b hpiece ↦ ?_) _
  · cases piece with
    | plain c => rfl
    | found b => cases hpiece
  · cases piece with
    | plain c => cases hpiece
    | found b' =>
      obtain rfl := Option.some.inj hpiece
      rfl

theorem nodup_and_mem_eventBindings (t : Text) : (eventBindings t).Nodup ∧
    ∀ b, b ∈ eventBindings t ↔ b ∈ [] ∨ ∃ piece ∈ eventPieces t, found? piece = some b := by
  refine nodup_gathered (fun _ piece h ↦ ?_) (fun _ piece _ h hmem ↦ ?_)
    (fun _ piece _ h hmem ↦ ?_) (eventPieces t) List.nodup_nil
  · cases piece with
    | plain c => rfl
    | found b => cases h
  · cases piece with
    | plain c => cases h
    | found b =>
      obtain rfl := Option.some.inj h
      exact if_pos hmem
  · cases piece with
    | plain c => cases h
    | found b =>
      obtain rfl := Option.some.inj h
      exact if_neg hmem

theorem exists_found?_iff {pieces : List (Piece EventBinding)} {b : EventBinding} :
    (∃ piece ∈ pieces, found? piece = some b) ↔ .found b ∈ pieces := by
  constructor
  · rintro ⟨piece, hpiece, hfound⟩
    cases piece with
    | plain c => cases hfound
    | found b' =>
      obtain rfl := Option.some.inj hfound
      exact hpiece
  · exact fun hmem ↦ ⟨_, hmem, rfl⟩

theorem count_eventBindings (h : Text.Divides WritesEvent [] t parts last) (b : EventBinding) :
    (eventBindings t).count b = if b ∈ parts.map Prod.snd then 1 else 0 := by
  obtain ⟨hnodup, hlisted⟩ := nodup_and_mem_eventBindings t
  have hmem : b ∈ eventBindings t ↔ b ∈ parts.map Prod.snd := by
    rw [hlisted, or_iff_right List.not_mem_nil, exists_found?_iff,
      eventPieces_eq_assemble (apart_nil t) h, Text.found_mem_assemble]
  by_cases hb : b ∈ parts.map Prod.snd
  · rw [if_pos hb, List.count_eq_one_of_mem hnodup (hmem.mpr hb)]
  · rw [if_neg hb, List.count_eq_zero.mpr fun h ↦ hb (hmem.mp h)]

/-- An event is known by its attribute. -/
theorem marker_inj {b b' : EventBinding} (h : b.marker = b'.marker) : b.event = b'.event := by
  have hsixth : ∀ event : Text, ("data-click" : Text) ≠ ("data-event-" : Text) ++ event := by
    intro event heq
    have hchar : some 'c' = some 'e' := congrArg (·[5]?) heq
    exact absurd hchar (by decide)
  rw [EventBinding.marker, EventBinding.marker] at h
  split_ifs at h with hb hb' hb'
  · rw [hb, hb']
  · exact absurd h (hsixth _)
  · exact absurd h.symm (hsixth _)
  · exact List.append_cancel_left h

theorem equals_notMem_marker {b : EventBinding} (h : b.WellNamed) : '=' ∉ b.marker := by
  rw [EventBinding.marker]
  split_ifs
  · decide
  · intro hmem
    rcases List.mem_append.mp hmem with hsign | hevent
    · exact absurd hsign (by decide)
    · exact absurd (h.event _ hevent) (by decide)

theorem render_inj {b b' : EventBinding} (hb : b.WellNamed) (hb' : b'.WellNamed)
    (h : b.render = b'.render) : b = b' := by
  have hcut : ∀ b : EventBinding, b.WellNamed →
      Text.upTo? '=' b.render = some (b.marker, "\"$" ++ (b.handler ++ ("\"" : Text))) := by
    intro b hb
    have hsign : ("=\"$" : Text) = '=' :: ("\"$" : Text) := by decide
    have hread : ∀ sign rest close : Text, sign = '=' :: rest →
        Text.upTo? '=' (b.marker ++ sign ++ b.handler ++ close) =
          some (b.marker, rest ++ (b.handler ++ close)) := by
      rintro _ rest close rfl
      simp only [List.append_assoc, List.cons_append]
      exact Text.upTo?_append_cons (equals_notMem_marker hb) _
    exact hread _ _ _ hsign
  have hsame := hcut b hb
  rw [h, hcut b' hb', Option.some.injEq, Prod.mk.injEq] at hsame
  obtain ⟨hmarker, hhandler⟩ := hsame
  have hevent := marker_inj hmarker
  have hname := List.append_cancel_right (List.append_cancel_left hhandler)
  cases b
  cases b'
  rw [EventBinding.mk.injEq]
  exact ⟨hevent.symm, hname.symm⟩

/-! ## Bound variables in the markup -/

open Script (bindingMarker)

theorem writeBinding_eq (name : Text) :
    writeBinding name = "<span " ++ (bindingMarker name ++ ("></span>" : Text)) := by
  have hstart : ("<span data-bind=\"$" : Text) = "<span " ++ ("data-bind=\"$" : Text) := by decide
  have hclose : ("\"></span>" : Text) = "\"" ++ ("></span>" : Text) := by decide
  exact Text.append_around hstart hclose name

theorem exists_writeBinding_eq {name : Text} (hname : Text.IsName name) :
    ∃ inner, writeBinding name = '<' :: (inner ++ ['>']) ∧ '\x7d' ∉ inner := by
  have hstart : ("<span data-bind=\"$" : Text) = ['<'] ++ ("span data-bind=\"$" : Text) := by decide
  have hclose : ("\"></span>" : Text) = ("\"></span" : Text) ++ ['>'] := by decide
  refine ⟨_, Text.append_around hstart hclose name, ?_⟩
  rw [List.mem_append, List.mem_append, not_or, not_or]
  exact ⟨by decide, fun hmem ↦ absurd (hname.2 _ hmem) (by decide), by decide⟩

/-- An element that shows a variable binds none, and parts what stands around it. -/
theorem findAll_append_writeBinding {name : Text} (hname : Text.IsName name) (t rest : Text) :
    Text.findAll readBinding (t ++ (writeBinding name ++ rest)) =
      Text.findAll readBinding t ++ Text.findAll readBinding rest := by
  obtain ⟨inner, heq, hbrace⟩ := exists_writeBinding_eq hname
  have hinner : Text.findAll readBinding inner = [] :=
    reads_binding.findAll_of_clear (Text.Form.clear_of_notMem writesBinding_closed hbrace [])
  have hopen := reads_binding.findAll_append_cons
    (notMem_of_writesBinding (by decide : isWord '<' = false) (by decide)) t (inner ++ '>' :: rest)
  have hclose := reads_binding.findAll_append_cons
    (notMem_of_writesBinding (by decide : isWord '>' = false) (by decide)) inner rest
  rw [hclose, hinner, List.nil_append] at hopen
  rw [heq, List.cons_append, List.append_assoc]
  exact hopen

theorem findAll_lowerBindings (t : Text) : Text.findAll readBinding (lowerBindings t) = [] := by
  obtain ⟨parts, last, hdivides⟩ := Text.exists_divides reads_binding.ne_nil [] t
  rw [lowerBindings, hdivides.substitute reads_binding]
  generalize ([] : Text) = before at hdivides
  induction hdivides with
  | last hclear => exact reads_binding.findAll_of_clear hclear
  | found hclear hform _ ih =>
    rw [List.flatMap_cons, List.append_assoc, List.append_assoc,
      findAll_append_writeBinding hform.1, ih, List.append_nil]
    exact reads_binding.findAll_of_clear hclear

theorem binding_not_isInfix_lowerBindings {name : Text} (hname : Text.IsName name) (t : Text) :
    ¬ ("\x7b$" : Text) ++ (name ++ ['\x7d']) <:+: lowerBindings t := by
  rintro ⟨front, back, heq⟩
  rw [List.append_assoc] at heq
  have hclear := reads_binding.clear_of_findAll (findAll_lowerBindings t)
  refine hclear front _ heq.symm (List.cons_ne_nil _ _) ⟨_, name, ?_, hname, rfl⟩
  rw [List.append_nil]
  exact List.prefix_append _ _

end Markup

/-! ## Warnings -/

theorem count_map_of_inj {α β : Type} [BEq α] [LawfulBEq α] [BEq β] [LawfulBEq β] {f : α → β}
    {as : List α} {a : α} (h : ∀ b ∈ as, f b = f a → b = a) :
    (as.map f).count (f a) = as.count a := by
  induction as with
  | nil => rfl
  | cons b as ih =>
    obtain ⟨hb, has⟩ := List.forall_mem_cons.mp h
    have hbeq : (f b == f a) = (b == a) := by
      rw [Bool.eq_iff_iff, beq_iff_eq, beq_iff_eq]
      exact ⟨hb, congrArg f⟩
    rw [List.map_cons, List.count_cons, ih has, List.count_cons, hbeq]

namespace Lowering

variable {c : Component} {known : OrderedMap (Option Condition.Tree)} {d : Diagnostic}

theorem exists_of_mem_rejected {condition : Text} (h : d ∈ (enter c known condition).2) :
    ∃ e, Condition.Error.diagnostic condition c.variableNames (some c.file) .warning e = .ok d := by
  rw [enter] at h
  split_ifs at h
  · cases h
  · simp only [compileCondition] at h
    cases hparse : Condition.parse condition c.variableNames with
    | ok tree =>
      simp only [hparse] at h
      cases h
    | error e =>
      simp only [hparse] at h
      cases hdiagnostic : e.diagnostic condition c.variableNames (some c.file) .warning with
      | error refusal =>
        simp only [hdiagnostic, Except.map] at h
        cases h
      | ok report =>
        simp only [hdiagnostic, Except.map] at h
        rw [List.mem_singleton.mp h]
        exact ⟨e, hdiagnostic⟩

/-- Lowering warns of nested blocks and of rejected conditions. -/
theorem warning_cases {blocks : List Markup.ConditionalBlock}
    (h : d ∈ (tableFrom c known blocks).warnings) :
    (∃ message, d = templateWarning c message nestingAdvice) ∨
      ∃ condition e, Condition.Error.diagnostic condition c.variableNames (some c.file) .warning e =
        .ok d := by
  induction blocks generalizing known with
  | nil => cases h
  | cons b rest ih =>
    have hfirst : d ∈ nestingWarnings c b ++ (enter c known b.condition).2 →
        (∃ message, d = templateWarning c message nestingAdvice) ∨ ∃ condition e,
          Condition.Error.diagnostic condition c.variableNames (some c.file) .warning e =
            .ok d := by
      intro hmem
      rcases List.mem_append.mp hmem with hnesting | hrejected
      · rw [nestingWarnings] at hnesting
        split_ifs at hnesting
        · exact .inl ⟨_, List.mem_singleton.mp hnesting⟩
        · cases hnesting
      · exact .inr ⟨_, exists_of_mem_rejected hrejected⟩
    rw [tableFrom] at h
    dsimp only at h
    split at h
    · exact hfirst h
    · rcases List.mem_append.mp h with hmem | hmem
      · exact hfirst hmem
      · exact ih hmem

end Lowering

namespace Script

open Markup

theorem handlerWarning_injective (c : Component) : Function.Injective (handlerWarning c) := by
  rintro ⟨event, handler⟩ ⟨event', handler'⟩ h
  obtain ⟨hmessage, hadvice⟩ := Cause.general.inj (congrArg Diagnostic.cause h)
  obtain rfl : handler = handler' :=
    List.append_cancel_left (List.append_cancel_right (List.cons.inj hadvice).1)
  obtain rfl : event = event' := List.append_cancel_left (List.append_cancel_right hmessage)
  rfl

/-- Nothing else is reported as a handler without a function is. -/
theorem handlerWarning_notMem (c : Component) (blocks : List ConditionalBlock) (b : EventBinding) :
    handlerWarning c b ∉ (Lowering.tableFrom c [] blocks).warnings := by
  intro hmem
  rcases Lowering.warning_cases hmem with ⟨message, heq⟩ | ⟨condition, e, hdiagnostic⟩
  · obtain ⟨-, hadvice⟩ := Cause.general.inj (congrArg Diagnostic.cause heq)
    have hfirst : some 'D' = some 'C' := congrArg List.head? (List.cons.inj hadvice).1
    exact absurd hfirst (by decide)
  · cases e with
    | malformed fault offset => cases hdiagnostic
    | unknown name => cases hdiagnostic
    | numeral refusal => cases hdiagnostic

theorem count_handlerWarning {c : Component} {events : List EventBinding} {b : EventBinding}
    (hdeclared : isDeclared c b = false) :
    (handlerWarnings c events).count (handlerWarning c b) = events.count b := by
  rw [handlerWarnings, count_map_of_inj fun _ _ heq ↦ handlerWarning_injective c heq,
    List.count_filter (by rw [hdeclared]; rfl)]

end Script

/-! ## Agreement -/

namespace Script

/-- Whether a block stands in lines once: nothing else begins as it does. -/
def HoldsOnce (block lines : List Text) : Prop :=
  block <:+: lines ∧ ∀ first ∈ block.head?, lines.count first = 1

end Script

/-- Whether a program does what the markers of its template ask for. It listens once for each
handler that is a function of the component. It does not listen for any other, and there is one
warning about it. And the function that brings the page up to date has one update for each variable
that is shown. -/
structure Generated.Drives (generated : Generated) (c : Component) (definitions : List Definition)
    (warnings : List Diagnostic) : Prop where
  script : ∃ front back, generated.script =
    Text.unlines (front ++ Script.pageLines c definitions generated.template ++ back)
  listens : ∀ b ∈ generated.template.events, (∃ f ∈ c.functions, f.name = b.handler) →
    Script.HoldsOnce (Script.listening b) (Script.pageLines c definitions generated.template)
  warns : ∀ b ∈ generated.template.events, (¬ ∃ f ∈ c.functions, f.name = b.handler) →
    Script.selecting 1 b.render ∉ Script.pageLines c definitions generated.template ∧
      warnings.count (Script.handlerWarning c b) = 1
  updates : ∃ front body back, Script.pageLines c definitions generated.template =
      front ++ (Script.conditionLines generated.template.conditions ++
        [] :: ("  const updateAll = () => \x7b" : Text) :: (body ++ ("  \x7d;" : Text) :: back)) ∧
    ("  \x7d;" : Text) ∉ body ∧
    ∀ name ∈ generated.template.bindings, name ∈ c.variableNames →
      Script.HoldsOnce (Script.updating name) body

namespace Component

open Script Markup

variable {c : Component} {mode : ScriptMode} {definitions : List Definition} {withLibrary : Bool}
  {generated : Generated}

theorem isDeclared_iff {b : EventBinding} :
    isDeclared c b = true ↔ ∃ f ∈ c.functions, f.name = b.handler := by
  simp [isDeclared]

theorem warnings_of_generate
    (h : (c.generate mode definitions withLibrary).result = .ok generated) :
    (c.generate mode definitions withLibrary).warnings =
      (Lowering.tableFrom c [] c.blocks).warnings ++
        handlerWarnings c generated.template.events := by
  rw [generate] at h ⊢
  dsimp only at h ⊢
  split at h
  · cases h
  · next lowered hlowered =>
    obtain rfl := Except.ok.inj h
    rfl

theorem drives_of_generate (hnames : ∀ d ∈ definitions, Text.IsName d.name)
    (h : (c.generate mode definitions withLibrary).result = .ok generated) :
    generated.Drives c definitions (c.generate mode definitions withLibrary).warnings := by
  obtain ⟨hscript, hevents, -⟩ := generate_eq_ok h
  have hnodup : generated.template.events.Nodup := hevents ▸ (nodup_and_mem_eventBindings _).1
  have hwell : ∀ b ∈ generated.template.events, b.WellNamed := by
    intro b hb
    rw [hevents] at hb
    exact wellNamed_of_mem_eventBindings hb
  have hselected : ∀ b ∈ generated.template.events,
      (pageLines c definitions generated.template).count (selecting 1 b.render) =
        (generated.template.events.filter (isDeclared c)).count b := by
    intro b hb
    rw [count_selecting_pageLines c hnames]
    refine count_map_of_inj fun b' hb' heq ↦ ?_
    exact render_inj (hwell b' (List.mem_filter.mp hb').1) (hwell b hb) heq
  constructor
  · obtain ⟨front, back, hprogram⟩ :=
      exists_program_eq_unlines c definitions withLibrary generated.template
    exact ⟨front, back, hscript.trans hprogram⟩
  · intro b hb hfunction
    have hdeclared := isDeclared_iff.mpr hfunction
    refine ⟨listening_isInfix hb hdeclared, ?_⟩
    rintro _ ⟨⟩
    rw [hselected b hb, List.count_filter hdeclared, List.count_eq_one_of_mem hnodup hb]
  · intro b hb hfunction
    have hdeclared : isDeclared c b = false :=
      Bool.eq_false_iff.mpr fun hb ↦ hfunction (isDeclared_iff.mp hb)
    constructor
    · rw [← List.count_eq_zero, hselected b hb, List.count_eq_zero, List.mem_filter, hdeclared]
      rintro ⟨-, ⟨⟩⟩
    · rw [warnings_of_generate h, List.count_append,
        List.count_eq_zero.mpr (handlerWarning_notMem c c.blocks b), Nat.zero_add,
        count_handlerWarning hdeclared, List.count_eq_one_of_mem hnodup hb]
  · obtain ⟨front, back, hpage⟩ := exists_pageLines_eq c definitions generated.template
    refine ⟨front, updateBody c, back, hpage, close_notMem_updateBody c, ?_⟩
    intro name _ hname
    refine ⟨updating_isInfix hname, ?_⟩
    rintro _ ⟨⟩
    rw [count_selecting_updateBody]
    exact List.count_eq_one_of_mem (nodup_distinct _) hname

/-- **The markers of the markup are those of the program.** The markup is cut in one way at its
handlers, and each becomes the marker of a pair that is listed once. It is cut in one way at its
bound variables, each of which becomes an element with a marker, and they are listed once each in
the order of their first appearance; no text that binds a variable is left. There is a program
unless a numeral is refused, and it does what the markers ask for. The imported components need
names, which they have in every source: their registration is written with them. -/
theorem markers_agree (hnames : ∀ d ∈ definitions, Text.IsName d.name) :
    (∃ b ∈ c.blocks, Condition.Refused b.condition) ∨
    ∃ generated, (c.generate mode definitions withLibrary).result = .ok generated ∧
      (∃ parts last,
        (∀ parts' last', Text.Divides WritesEvent [] (beforeEvents c) parts' last' ↔
          parts' = parts ∧ last' = last) ∧
        beforeBlocks c = parts.flatMap (fun part ↦ part.1 ++ part.2.render) ++ last ∧
        ∀ b, generated.template.events.count b = if b ∈ parts.map Prod.snd then 1 else 0) ∧
      (∃ parts last,
        (∀ parts' last', Text.Divides WritesBinding [] (beforeBindings c) parts' last' ↔
          parts' = parts ∧ last' = last) ∧
        generated.template.html = parts.flatMap (fun part ↦ part.1 ++
          (("<span " : Text) ++ (bindingMarker part.2 ++ ("></span>" : Text)))) ++ last ∧
        generated.template.bindings = distinct (parts.map Prod.snd)) ∧
      (∀ name, Text.IsName name →
        ¬ ("\x7b$" : Text) ++ (name ++ ['\x7d']) <:+: generated.template.html) ∧
      generated.Drives c definitions (c.generate mode definitions withLibrary).warnings := by
  cases htable : (Lowering.tableFrom c [] c.blocks).conditions with
  | error refusal =>
    left
    obtain ⟨b, hb, hscan⟩ := Lowering.tableFrom_eq_error htable
    exact ⟨b, hb, refusal, hscan⟩
  | ok table =>
    right
    obtain ⟨⟨generated, hgenerated, -⟩, -⟩ :=
      (c.generate_eq mode definitions withLibrary).2 table htable
    obtain ⟨conditions, -, -, htemplate⟩ := exists_of_generate hgenerated
    refine ⟨generated, hgenerated, ?_, ?_, ?_, drives_of_generate hnames hgenerated⟩
    · obtain ⟨parts, last, hiff⟩ := Text.existsUnique_divides writesEvent_ne_nil
        fun parts last ↦ eventPieces_eq_assemble (apart_nil (beforeEvents c))
      have hdivides := (hiff parts last).mpr ⟨rfl, rfl⟩
      rw [htemplate]
      exact ⟨parts, last, hiff, lowerEvents_of_divides hdivides, count_eventBindings hdivides⟩
    · obtain ⟨parts, last, hiff⟩ := Text.existsUnique_divides reads_binding.ne_nil
        fun parts last (h : Text.Divides _ [] (beforeBindings c) parts last) ↦
          h.pieces_eq reads_binding
      have hdivides := (hiff parts last).mpr ⟨rfl, rfl⟩
      rw [htemplate]
      refine ⟨parts, last, hiff, ?_, ?_⟩
      · simp only [lower, lowerBindings, hdivides.substitute reads_binding, writeBinding_eq]
      · rw [bindings, hdivides.findAll reads_binding]
    · intro name hname
      rw [htemplate]
      exact binding_not_isInfix_lowerBindings hname _

/-- A source with a handler that is a function and one that is not. -/
def markedSource : Text :=
  "$n! = 1\n$inc = () => \x7b $n++ \x7d\n<template>\n<b click=\x7b$inc\x7d input=\x7b$typo\x7d>" ++
    "\x7b$n\x7d</b>\n</template>"

/-- What is known of a component that it may import. -/
def cardDefinition : Definition := { name := "Card", framework := .react, path := "./Card.jsx" }

/-- The program of such a source listens for the function, and there is a warning about the
other. -/
theorem marked_page_agrees :
    (∀ d ∈ [cardDefinition], Text.IsName d.name) ∧
    ∃ generated,
      ((ofSource "page.mtm" markedSource).generate .inline [cardDefinition] false).result =
        .ok generated ∧
      generated.template.events = [⟨"click", "inc"⟩, ⟨"input", "typo"⟩] ∧
      HoldsOnce (listening ⟨"click", "inc"⟩)
        (pageLines (ofSource "page.mtm" markedSource) [cardDefinition] generated.template) ∧
      ((ofSource "page.mtm" markedSource).generate .inline [cardDefinition] false).warnings.count
        (handlerWarning (ofSource "page.mtm" markedSource) ⟨"input", "typo"⟩) = 1 ∧
      ¬ ("\x7b$n\x7d" : Text) <:+: generated.template.html := by
  have hnames : ∀ d ∈ [cardDefinition], Text.IsName d.name := by decide +kernel
  have hevents : eventBindings (beforeEvents (ofSource "page.mtm" markedSource)) =
      [⟨"click", "inc"⟩, ⟨"input", "typo"⟩] := by decide +kernel
  have hblocks : (ofSource "page.mtm" markedSource).blocks = [] := by decide +kernel
  have hfunction : ∃ f ∈ (ofSource "page.mtm" markedSource).functions, f.name = "inc" := by
    decide +kernel
  have hmissing : ¬ ∃ f ∈ (ofSource "page.mtm" markedSource).functions, f.name = "typo" := by
    decide +kernel
  generalize ofSource "page.mtm" markedSource = c at *
  refine ⟨hnames, ?_⟩
  rcases markers_agree hnames with ⟨b, hb, -⟩ | ⟨generated, hgenerated, -, -, hleft, hdrives⟩
  · rw [hblocks] at hb
    cases hb
  · have hlisted := (generate_eq_ok hgenerated).2.1.trans hevents
    have hclick : (⟨"click", "inc"⟩ : EventBinding) ∈ generated.template.events := by simp [hlisted]
    have hinput : (⟨"input", "typo"⟩ : EventBinding) ∈ generated.template.events := by
      simp [hlisted]
    exact ⟨generated, hgenerated, hlisted, hdrives.listens _ hclick hfunction,
      (hdrives.warns _ hinput hmissing).2, hleft "n" (by decide)⟩

end Component

end PageCompiler
