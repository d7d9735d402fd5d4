import PageCompiler.Proofs.BuildReports
import PageCompiler.Proofs.OrderIndependence

/-!
# What a page is warned about

Warnings come up at four places while a page is compiled: an import is not found, a block holds the
opening of another, the condition of a block is rejected, and the handler of an event is no
function. Here the list of them is written down without the steps that gather it. The imports are
gone through in the order of the source, the blocks in the order of the template, and the handlers
in the order in which they first appear. A condition that stands on several blocks is reported with
the first of them, while their nesting is reported for each.

What is found along the way is filed by its severity, and a page keeps the warnings only. So it also
matters that everything that is found is a warning, or it would be lost.
-/

namespace PageCompiler

/-! ## The list -/

namespace Warnings

def ofImport (options : CompileOptions) (tree : FileTree) (file : Text) (i : Import) :
    List Diagnostic :=
  match (ImportRules.standard (Path.ofText options.base) options.aliases).resolve tree i.path
      file with
  | .ok (.missing searched) =>
    [{ cause := .importMissing i.path searched, file := some file, line := some i.line
       severity := .warning }]
  | _ => []

/-- The warnings about the imports of a component. There are none where imports are not looked for,
or where a page is rejected over them. -/
def ofImports (options : CompileOptions) (tree : FileTree) (c : Component) : List Diagnostic :=
  if options.resolveImports && !options.strictImports then
    c.imports.flatMap (ofImport options tree c.file)
  else []

def ofNesting (c : Component) (b : Markup.ConditionalBlock) : List Diagnostic :=
  if ("\x7b#if" : Text) <:+: b.body then
    [{ cause := .general (Lowering.nestingMessage b.condition) Lowering.nestingAdvice
       file := some c.file, severity := .warning }]
  else []

def ofCondition (c : Component) (condition : Text) : List Diagnostic :=
  match Condition.parse condition c.variableNames with
  | .error (.malformed fault offset) =>
    [{ cause := .conditionMalformed condition fault.reason offset, file := some c.file
       severity := .warning }]
  | .error (.unknown name) =>
    [{ cause := .nameUnknown name condition c.variableNames, file := some c.file
       severity := .warning }]
  | _ => []

/-- The warnings about a block behind others that are shown under the given conditions. -/
def ofBlock (c : Component) (earlier : List Text) (b : Markup.ConditionalBlock) : List Diagnostic :=
  ofNesting c b ++ if b.condition ∈ earlier then [] else ofCondition c b.condition

/-- The warnings about blocks. That a condition is rejected is said where it stands first. -/
def ofBlocks (c : Component) (blocks : List Markup.ConditionalBlock) : List Diagnostic :=
  blocks.zipIdx.flatMap fun entry ↦
    ofBlock c ((blocks.take entry.2).map Markup.ConditionalBlock.condition) entry.1

/-- The warnings about handlers that are no functions, for each pair of an event and a handler
once. -/
def ofHandlers (c : Component) (events : List Markup.EventBinding) : List Diagnostic :=
  (events.eraseDups.filter fun b ↦ b.handler ∉ c.functions.map Function.name).map
    (Script.handlerWarning c)

end Warnings

/-! ## Imports -/

theorem Component.imports_ofTokens (file : Text) (fields : FrontMatter)
    (tokens : List Source.Token) :
    (ofTokens file fields tokens).imports = tokens.filterMap Source.Token.import? := by
  induction tokens using List.reverseRecOn with
  | nil => rfl
  | append_singleton tokens token ih =>
    rw [ofTokens, List.foldl_append, List.foldl_cons, List.foldl_nil, ← ofTokens,
      List.filterMap_append, ← ih]
    obtain ⟨line, declaration⟩ := token
    cases declaration <;> simp [declare, Source.Token.import?]

namespace Source

variable {E : Type} {file : Text} {locator : Locator E} {events : List Event}

theorem warnings_of_locate {tokens : List Token}
    (h : (locate file locator events).tokens = .ok tokens) :
    (locate file locator events).warnings =
      (tokens.filterMap Token.import?).flatMap fun i ↦ (locator i.path i.line).warnings := by
  fun_induction locate file locator events generalizing tokens with
  | case1 =>
    obtain rfl := Except.ok.inj h
    rfl
  | case2 => cases h
  | case3 line name path _ rest lookup resolved hfound scanned =>
    rename_i ih
    obtain ⟨more, hmore, rfl⟩ := exists_of_map_eq_ok h
    exact congrArg (lookup.warnings ++ ·) (ih hmore)
  | case4 t rest hother scanned =>
    rename_i ih
    obtain ⟨more, hmore, rfl⟩ := exists_of_map_eq_ok h
    have hnone : t.import? = none := by
      obtain ⟨line, declaration⟩ := t
      cases declaration with
      | imported name path resolved => exact absurd rfl (hother line name path resolved)
      | _ => rfl
    rw [List.filterMap_cons_none hnone]
    exact ih hmore
  | case5 event rest _ _ scanned =>
    rename_i ih
    exact ih h

end Source

namespace Warnings

variable {options : CompileOptions} {tree : FileTree}

theorem warnings_locator (file : Text) (i : Import) :
    (options.locator tree file i.path i.line).warnings =
      if options.resolveImports && !options.strictImports then ofImport options tree file i
      else [] := by
  unfold CompileOptions.locator ofImport
  dsimp only
  cases options.resolveImports with
  | false => rfl
  | true =>
    cases (ImportRules.standard (Path.ofText options.base) options.aliases).resolve tree i.path
        file with
    | error e => simp
    | ok resolution =>
      cases resolution with
      | package name => simp
      | file found searched => simp
      | missing searched => cases options.strictImports <;> simp

theorem warnings_read {file : Text} {parts : FrontMatter.Extracted} {c : Component}
    (h : (Component.read file (options.locator tree file) parts).component = .ok c) :
    (Component.read file (options.locator tree file) parts).warnings =
      ofImports options tree c := by
  unfold Component.read at h ⊢
  dsimp only at h ⊢
  split at h
  · cases h
  · next tokens htokens =>
    obtain rfl := Except.ok.inj h
    dsimp only
    rw [Source.tokenize] at htokens ⊢
    rw [Source.warnings_of_locate htokens, ofImports, Component.imports_ofTokens,
      (Component.file_fields_ofTokens _ _ _).1]
    simp only [warnings_locator]
    split_ifs
    · rfl
    · simp

end Warnings

/-! ## Blocks -/

namespace Warnings

variable {c : Component} {known table : OrderedMap (Option Condition.Tree)}

theorem nestingWarnings_eq (c : Component) (b : Markup.ConditionalBlock) :
    Lowering.nestingWarnings c b = ofNesting c b := by
  rw [Lowering.nestingWarnings, Markup.ConditionalBlock.isNested, ofNesting]
  exact if_congr Text.contains_iff rfl rfl

/-- A condition is reported when it is entered, and it is entered once. -/
theorem rejected_of_enter {condition : Text} {more : OrderedMap (Option Condition.Tree)}
    {rejected : List Diagnostic} (h : Lowering.enter c known condition = (.ok more, rejected)) :
    rejected = (if condition ∈ OrderedMap.keys known then [] else ofCondition c condition) ∧
      ∀ key, key ∈ OrderedMap.keys more ↔ key ∈ OrderedMap.keys known ∨ key = condition := by
  rw [Lowering.enter] at h
  by_cases hknown : condition ∈ OrderedMap.keys known
  · rw [if_pos (OrderedMap.contains_iff.mpr hknown)] at h
    obtain ⟨hmore, rfl⟩ := Prod.mk.inj h
    obtain rfl := Except.ok.inj hmore
    refine ⟨(if_pos hknown).symm, fun key ↦ (or_iff_left_of_imp ?_).symm⟩
    rintro rfl
    exact hknown
  · rw [if_neg fun hc ↦ hknown (OrderedMap.contains_iff.mp hc), Lowering.compileCondition] at h
    rw [if_neg hknown, ofCondition]
    have hkeys : ∀ entry key, key ∈ OrderedMap.keys (OrderedMap.put condition entry known) ↔
        key ∈ OrderedMap.keys known ∨ key = condition := by
      intro entry key
      rw [OrderedMap.mem_keys_put, or_comm]
    cases hparse : Condition.parse condition c.variableNames with
    | ok tree =>
      rw [hparse] at h
      obtain ⟨hmore, rfl⟩ := Prod.mk.inj h
      obtain rfl := Except.ok.inj hmore
      exact ⟨rfl, hkeys _⟩
    | error e =>
      rw [hparse] at h
      cases e with
      | malformed fault offset =>
        obtain ⟨hmore, rfl⟩ := Prod.mk.inj h
        obtain rfl := Except.ok.inj hmore
        exact ⟨rfl, hkeys _⟩
      | unknown name =>
        obtain ⟨hmore, rfl⟩ := Prod.mk.inj h
        obtain rfl := Except.ok.inj hmore
        exact ⟨rfl, hkeys _⟩
      | numeral refusal => cases (Prod.mk.inj h).1

/-- The table is put together block by block. Behind some blocks it has their conditions, so that a
condition is new to it where it stands on none of them. -/
theorem warnings_tableFrom {front blocks : List Markup.ConditionalBlock}
    (hfront : ∀ key, key ∈ OrderedMap.keys known ↔
      key ∈ front.map Markup.ConditionalBlock.condition)
    (h : (Lowering.tableFrom c known blocks).conditions = .ok table) :
    (Lowering.tableFrom c known blocks).warnings =
      (blocks.zipIdx front.length).flatMap fun entry ↦
        ofBlock c (((front ++ blocks).take entry.2).map Markup.ConditionalBlock.condition)
          entry.1 := by
  induction blocks generalizing known front with
  | nil => rfl
  | cons b rest ih =>
    rcases henter : Lowering.enter c known b.condition with ⟨entered, rejected⟩
    cases entered with
    | error refusal =>
      rw [Lowering.tableFrom, henter] at h
      cases h
    | ok more =>
      obtain ⟨hconditions, hwarnings⟩ := Lowering.tableFrom_cons henter rest
      obtain ⟨hrejected, hkeys⟩ := rejected_of_enter henter
      have hmore : ∀ key, key ∈ OrderedMap.keys more ↔
          key ∈ (front ++ [b]).map Markup.ConditionalBlock.condition := by
        intro key
        rw [hkeys, hfront, List.map_append, List.mem_append, List.map_singleton,
          List.mem_singleton]
      have htake : (front ++ b :: rest).take front.length = front := List.take_left
      have hrest := ih hmore (hconditions ▸ h)
      rw [List.length_append, List.length_singleton, List.append_assoc,
        List.singleton_append] at hrest
      rw [hwarnings, hrest, List.zipIdx_cons, List.flatMap_cons, nestingWarnings_eq, hrejected,
        htake, ofBlock]
      simp only [hfront]

end Warnings

/-! ## Handlers -/

theorem Markup.eventBindings_of_divides {t last : Text} {parts : List (Text × EventBinding)}
    (h : Text.Divides WritesEvent [] t parts last) :
    eventBindings t = (parts.map Prod.snd).eraseDups := by
  rw [eventBindings_eq_eraseDups, eventPieces_eq_assemble (apart_nil t) h,
    Text.filterMap_assemble (fun _ ↦ rfl) (fun _ ↦ rfl)]

theorem Warnings.handlerWarnings_eraseDups (c : Component) (events : List Markup.EventBinding) :
    Script.handlerWarnings c events.eraseDups = ofHandlers c events := by
  rw [Script.handlerWarnings, ofHandlers]
  congr 1
  refine List.filter_congr fun b _ ↦ ?_
  rw [Bool.eq_iff_iff, decide_eq_true_iff, Bool.not_eq_true', Bool.eq_false_iff, ne_eq,
    Component.isDeclared_iff, List.mem_map]

/-! ## The whole -/

namespace Compile

variable {options : CompileOptions} {tree : FileTree} {registry : Route.Registry}
  {file text : Text} {page : Compiled}

/-- A page has what was found while its source was read, and then what was found while its program
was generated. -/
theorem warnings_of_source (h : (source options tree registry file text).result = .ok page) :
    let reading := Component.read file (options.locator tree file) (FrontMatter.extract text)
    reading.component = .ok page.component ∧ ∃ known generated,
      (definitions tree page.component).1 = .ok known ∧
      (page.component.generate page.mode known options.withLibrary).result = .ok generated ∧
      page.warnings = reading.warnings ++
        (page.component.generate page.mode known options.withLibrary).warnings := by
  intro reading
  obtain ⟨c, mode, hread, -, hfinish⟩ := exists_finish_of_source h
  rw [finish] at hfinish
  split at hfinish
  · cases hfinish
  · next known _ hknown =>
    simp only [generate] at hfinish
    split at hfinish
    · cases hfinish
    · next generated hgenerated =>
      obtain rfl := Except.ok.inj hfinish
      exact ⟨hread, known, generated, congrArg Prod.fst hknown, hgenerated, rfl⟩

/-- **A page has exactly its warnings, in order.** There is one for each import that was not found,
where the page may do without; then, block by block, one for its nesting, and one for its condition
where it is rejected and stands first; then one for each pair of an event and a handler that is no
function. Blocks and pairs are those that are written in the markup. All that is found, while the
source is read and while the program is generated, is filed under warnings and none of it under
errors. -/
theorem page_has_its_warnings (h : (source options tree registry file text).result = .ok page) :
    (∃ blocks lastBlock events lastEvent,
      Text.Divides Markup.WritesBlock [] (Markup.beforeBlocks page.component) blocks lastBlock ∧
      Text.Divides Markup.WritesEvent [] (Markup.beforeEvents page.component) events lastEvent ∧
      page.component.file = file ∧
      page.warnings = Warnings.ofImports options tree page.component ++
        (Warnings.ofBlocks page.component (blocks.map Prod.snd) ++
          Warnings.ofHandlers page.component (events.map Prod.snd))) ∧
    (∀ d ∈ page.warnings, d.severity = .warning) ∧
    ∃ known, (definitions tree page.component).1 = .ok known ∧ Findings.addAll {}
      ((Component.read file (options.locator tree file) (FrontMatter.extract text)).warnings ++
        (page.component.generate page.mode known options.withLibrary).warnings) =
      ⟨[], page.warnings⟩ := by
  obtain ⟨hread, known, generated, hknown, hgenerated, hwarnings⟩ := warnings_of_source h
  have hseverity := severity_of_mem_warnings h
  obtain ⟨blocks, lastBlock, hblocks⟩ := Text.exists_divides Markup.reads_block.ne_nil []
    (Markup.beforeBlocks page.component)
  obtain ⟨events, lastEvent, hevents⟩ := Text.exists_divides Markup.writesEvent_ne_nil []
    (Markup.beforeEvents page.component)
  have hfile := (Component.file_fields_of_read hread).1
  refine ⟨⟨blocks, lastBlock, events, lastEvent, hblocks, hevents, hfile, ?_⟩, hseverity, known,
    hknown, ?_⟩
  · obtain ⟨-, hlisted, htable⟩ := Component.generate_eq_ok hgenerated
    have hnone : ∀ key, key ∈ OrderedMap.keys ([] : OrderedMap (Option Condition.Tree)) ↔
        key ∈ ([] : List Markup.ConditionalBlock).map Markup.ConditionalBlock.condition :=
      fun _ ↦ Iff.rfl
    have hblockWarnings := Warnings.warnings_tableFrom hnone htable
    rw [hwarnings, Warnings.warnings_read hread, Component.warnings_of_generate hgenerated, hlisted,
      Markup.eventBindings_of_divides hevents, Warnings.handlerWarnings_eraseDups, hblockWarnings,
      Component.blocks, Markup.blocks, hblocks.findAll Markup.reads_block]
    rfl
  · rw [← hwarnings, Findings.addAll_of_warnings hseverity]
    rfl

/-- A page with a missing import, a block in another under one condition twice, and a handler
twice. -/
def warnedPage : Text :=
  "import A from \"./a\"\n<template>\x7b#if !\x7d\x7b#if x\x7d\x7b/if\x7d" ++
    "\x7b#if !\x7d\x7b/if\x7d<b click=\x7b$f\x7d></b><b click=\x7b$f\x7d></b></template>"

/-- The imports of the page are looked for, and it may do without them. -/
def lenientOptions : CompileOptions :=
  { withLibrary := false, resolveImports := true, strictImports := false }

/-- Such a page has four warnings. -/
theorem warnings_of_warnedPage :
    ∃ page, (source lenientOptions {} {} "p.mtm" warnedPage).result = .ok page ∧
      page.warnings.map Diagnostic.message =
        [("cannot resolve import \"./a\"" : Text),
         ("nested \x7b#if\x7d blocks are not supported (outer condition: !)" : Text),
         ("invalid condition \"!\": unexpected end of condition (at offset 1)" : Text),
         ("event handler $f for 'click' is not a declared function" : Text)] ∧
      (∀ d ∈ page.warnings, d.severity = .warning) ∧
      ∃ known, (definitions {} page.component).1 = .ok known ∧ Findings.addAll {}
        ((Component.read "p.mtm" (lenientOptions.locator {} "p.mtm")
            (FrontMatter.extract warnedPage)).warnings ++
          (page.component.generate page.mode known lenientOptions.withLibrary).warnings) =
        ⟨[], page.warnings⟩ := by
  have hmessages : (source lenientOptions {} {} "p.mtm" warnedPage).result.toOption.any
      (fun page ↦ page.warnings.map Diagnostic.message =
        [("cannot resolve import \"./a\"" : Text),
         ("nested \x7b#if\x7d blocks are not supported (outer condition: !)" : Text),
         ("invalid condition \"!\": unexpected end of condition (at offset 1)" : Text),
         ("event handler $f for 'click' is not a declared function" : Text)]) = true := by
    decide +kernel
  rcases hresult : (source lenientOptions {} {} "p.mtm" warnedPage).result with e | page
  · rw [hresult] at hmessages
    cases hmessages
  · rw [hresult] at hmessages
    obtain ⟨-, hseverity, hfiled⟩ := page_has_its_warnings hresult
    exact ⟨page, rfl, of_decide_eq_true hmessages, hseverity, hfiled⟩

end Compile

end PageCompiler
