import PageCompiler.Proofs.BuildSteps
import PageCompiler.Proofs.ConditionGrammar

/-!
# Names in sources

Whatever is declared is declared under a name: the readers take the names of variables, functions,
imports, components, properties and handlers as runs of word characters, and nothing on the way from
a line to the program touches them. So the program may write them where it likes.

Every declaration is what one line says, except for the body of a function, the template and the
files of imports. For a source this is an invariant of scanning: the block that a line stands in may
hold the name of a function whose end is still to come. So what is known of a line (that its names
are names, that it has no line feed) is known of the declarations.
-/

namespace PageCompiler

/-! ## Lines -/

variable {t : Text} {E : Type} {c : Component} {p : Property}

namespace Source

/-- Whether a line declares what it declares under a name. -/
def LineForm.WellNamed : LineForm → Prop
  | .imported name _ | .reactive name _ | .computed name _ | .function name _ _
  | .componentName name => Text.IsName name
  | .empty | .template _ | .other => True

section Readers

variable {line name : Text}

theorem isName_of_import? {path : Text} (h : import? line = some (name, path)) :
    Text.IsName name := by
  simp only [import?, Option.bind_eq_bind, Option.bind_eq_some_iff] at h
  obtain ⟨_, -, _, -, ⟨word, rest⟩, hword, _, -, _, -, _, -, _, -, _, -, _, -, hsome⟩ := h
  split_ifs at hsome
  obtain ⟨rfl, -⟩ := Prod.mk.inj (Option.some.inj hsome)
  exact .of_word? hword

theorem isName_of_declared? {rest : Text} (h : declared? line = some (name, rest)) :
    Text.IsName name := by
  simp only [declared?, Option.bind_eq_bind, Option.bind_eq_some_iff] at h
  obtain ⟨_, -, hword⟩ := h
  exact .of_word? hword

theorem isName_of_reactive? {expression : Text} (h : reactive? line = some (name, expression)) :
    Text.IsName name := by
  simp only [reactive?, Option.bind_eq_bind, Option.bind_eq_some_iff] at h
  obtain ⟨⟨word, rest⟩, hdeclared, _, -, _, -, hsome⟩ := h
  obtain ⟨rfl, -⟩ := Prod.mk.inj (Option.some.inj hsome)
  exact isName_of_declared? hdeclared

theorem isName_of_computed? {expression : Text} (h : computed? line = some (name, expression)) :
    Text.IsName name := by
  simp only [computed?, Option.bind_eq_bind, Option.bind_eq_some_iff] at h
  obtain ⟨⟨word, rest⟩, hdeclared, _, -, hsome⟩ := h
  split_ifs at hsome
  obtain ⟨rfl, -⟩ := Prod.mk.inj (Option.some.inj hsome)
  exact isName_of_declared? hdeclared

theorem isName_of_function? {parameters rest : Text}
    (h : function? line = some (name, parameters, rest)) : Text.IsName name := by
  simp only [function?, Option.bind_eq_bind, Option.bind_eq_some_iff] at h
  obtain ⟨⟨word, _⟩, hdeclared, _, -, _, -, _, -, _, -, _, -, hsome⟩ := h
  obtain ⟨rfl, -⟩ := Prod.mk.inj (Option.some.inj hsome)
  exact isName_of_declared? hdeclared

theorem isName_of_readComponentName {rest : Text} (h : readComponentName t = some (name, rest)) :
    Text.IsName name := by
  simp only [readComponentName, Option.bind_eq_bind, Option.bind_eq_some_iff] at h
  obtain ⟨_, -, _, -, _, -, _, -, _, -, _, -, hword⟩ := h
  exact .of_word? hword

theorem isSuffix_of_declared? {rest : Text} (h : declared? line = some (name, rest)) :
    rest <:+ line := by
  simp only [declared?, Option.bind_eq_bind, Option.bind_eq_some_iff] at h
  obtain ⟨t, hdollar, hword⟩ := h
  exact List.IsSuffix.trans ⟨name, (Text.append_of_run? hword).symm⟩
    ((Text.isSuffix_of_after? hdollar).trans (Text.isSuffix_trimLeft line))

theorem isSuffix_of_assigned? {rest value : Text} (h : assigned? rest = some value) :
    value <:+ rest := by
  simp only [assigned?, Option.bind_eq_bind, Option.bind_eq_some_iff] at h
  obtain ⟨t, hequals, hsome⟩ := h
  split_ifs at hsome
  obtain rfl := Option.some.inj hsome
  exact (Text.isSuffix_of_after? hequals).trans (Text.isSuffix_trimLeft rest)

theorem isInfix_of_reactive? {expression : Text} (h : reactive? line = some (name, expression)) :
    expression <:+: line := by
  simp only [reactive?, Option.bind_eq_bind, Option.bind_eq_some_iff] at h
  obtain ⟨⟨word, rest⟩, hdeclared, t, hsign, value, hvalue, hsome⟩ := h
  obtain ⟨rfl, rfl⟩ := Prod.mk.inj (Option.some.inj hsome)
  have hsuffix : value <:+ line := (isSuffix_of_assigned? hvalue).trans
    ((Text.isSuffix_of_after? hsign).trans (isSuffix_of_declared? hdeclared))
  exact (Text.isInfix_trim value).trans hsuffix.isInfix

theorem isInfix_of_computed? {expression : Text} (h : computed? line = some (name, expression)) :
    expression <:+: line := by
  simp only [computed?, Option.bind_eq_bind, Option.bind_eq_some_iff] at h
  obtain ⟨⟨word, rest⟩, hdeclared, value, hvalue, hsome⟩ := h
  split_ifs at hsome
  obtain ⟨rfl, rfl⟩ := Prod.mk.inj (Option.some.inj hsome)
  have hsuffix : value <:+ line :=
    (isSuffix_of_assigned? hvalue).trans (isSuffix_of_declared? hdeclared)
  exact (Text.isInfix_trim value).trans hsuffix.isInfix

theorem isInfix_of_function? {parameters rest : Text}
    (h : function? line = some (name, parameters, rest)) : parameters <:+: line := by
  simp only [function?, Option.bind_eq_bind, Option.bind_eq_some_iff] at h
  obtain ⟨⟨word, t₁⟩, hdeclared, t₂, hequals, t₃, hopen, ⟨inside, t₄⟩, hupTo, _, -, _, -,
    hsome⟩ := h
  obtain ⟨rfl, heq⟩ := Prod.mk.inj (Option.some.inj hsome)
  obtain ⟨rfl, -⟩ := Prod.mk.inj heq
  have hsuffix : t₃ <:+ line := (Text.isSuffix_of_after? hopen).trans <|
    (Text.isSuffix_trimLeft t₂).trans <| (Text.isSuffix_of_after? hequals).trans <|
      (Text.isSuffix_trimLeft t₁).trans (isSuffix_of_declared? hdeclared)
  obtain ⟨rfl, -⟩ := Text.upTo?_eq_some_iff.mp hupTo
  exact (Text.isInfix_trim inside).trans
    ((List.prefix_append inside _).isInfix.trans hsuffix.isInfix)

end Readers

/-- What the reader of each form of lines found, said of the line. -/
def LineForm.Says (line : Text) : LineForm → Prop
  | .imported name path => import? line = some (name, path)
  | .reactive name expression => reactive? line = some (name, expression)
  | .computed name expression => computed? line = some (name, expression)
  | .function name parameters rest => function? line = some (name, parameters, rest)
  | .componentName name => Text.find? readComponentName line = some name
  | .empty | .template _ | .other => True

theorem says_readLine (line : Text) : (readLine line).Says line := by
  unfold readLine
  dsimp only
  split_ifs
  · trivial
  · split
    · assumption
    · split
      · assumption
      · split
        · assumption
        · split
          · assumption
          · split
            · trivial
            · split
              · assumption
              · trivial

theorem wellNamed_readLine (line : Text) : (readLine line).WellNamed := by
  have hsaid := says_readLine line
  cases hform : readLine line <;> rw [hform] at hsaid
  case imported => exact isName_of_import? hsaid
  case reactive => exact isName_of_reactive? hsaid
  case computed => exact isName_of_computed? hsaid
  case function => exact isName_of_function? hsaid
  case componentName =>
    obtain ⟨_, _, -, hread⟩ := Text.exists_of_find? hsaid
    exact isName_of_readComponentName hread
  all_goals trivial

/-! ## Scanning -/

/-- Whether a declaration is one under a name; a template has none. -/
def Declaration.WellNamed : Declaration → Prop
  | .imported name _ _ | .reactive name _ | .computed name _ | .function name _ _
  | .componentName name => Text.IsName name
  | .template _ => True

/-- Whether a declaration is what one of the lines says. The file of an import, the body of a
function and the template are found elsewhere. -/
def Declaration.ReadOff (ls : List Text) : Declaration → Prop
  | .imported name path _ => ∃ line ∈ ls, readLine line = .imported name path
  | .reactive name expression => ∃ line ∈ ls, readLine line = .reactive name expression
  | .computed name expression => ∃ line ∈ ls, readLine line = .computed name expression
  | .function name parameters _ => ∃ line ∈ ls, ∃ rest,
      readLine line = .function name parameters rest
  | .componentName name => ∃ line ∈ ls, readLine line = .componentName name
  | .template _ => True

/-- Whether the function that a line stands in was begun by one of the lines. -/
def Block.ReadOff (ls : List Text) : Block → Prop
  | .function _ name parameters _ => ∃ line ∈ ls, ∃ rest,
      readLine line = .function name parameters rest
  | .outside | .template _ _ => True

/-- Whether the tokens among events are read off the lines. -/
def EventsReadOff (ls : List Text) (events : List Event) : Prop :=
  ∀ t, .token t ∈ events → t.declaration.ReadOff ls

section Lines

variable {ls : List Text}

theorem Declaration.ReadOff.wellNamed {d : Declaration} (h : d.ReadOff ls) : d.WellNamed := by
  cases d with
  | template markup => trivial
  | function name parameters body =>
    obtain ⟨line, -, rest, hline⟩ := h
    have hnamed := wellNamed_readLine line
    rwa [hline] at hnamed
  | _ =>
    obtain ⟨line, -, hline⟩ := h
    have hnamed := wellNamed_readLine line
    rwa [hline] at hnamed

theorem eventsReadOff_singleton {t : Token} (h : t.declaration.ReadOff ls) :
    EventsReadOff ls [.token t] := by
  intro u hu
  obtain rfl := Event.token.inj (List.mem_singleton.mp hu)
  exact h

theorem Block.ReadOff.finish {block : Block} (h : block.ReadOff ls) :
    EventsReadOff ls block.finish := by
  intro t ht
  cases block with
  | outside => exact absurd ht List.not_mem_nil
  | function line name parameters body =>
    obtain rfl : t = ⟨line, .function name parameters (Text.unlines body)⟩ := by
      simpa [Block.finish] using ht
    exact h
  | template line markup =>
    obtain rfl : t = ⟨line, .template (Text.unlines markup)⟩ := by simpa [Block.finish] using ht
    trivial

theorem Block.ReadOff.step {block : Block} (h : block.ReadOff ls) (number : Int) {line : Text}
    (hline : line ∈ ls) :
    EventsReadOff ls (step number block line).1 ∧ (step number block line).2.ReadOff ls := by
  have hnone : EventsReadOff ls [] := fun t ht ↦ absurd ht List.not_mem_nil
  unfold Source.step
  split
  -- A function that is open was begun by an earlier line.
  · split_ifs
    · exact ⟨eventsReadOff_singleton h, trivial⟩
    · exact ⟨hnone, h⟩
  · split_ifs
    · exact ⟨eventsReadOff_singleton trivial, trivial⟩
    · exact ⟨hnone, trivial⟩
  -- Outside of all blocks the form of the line decides.
  · split <;> rename_i hform
    · exact ⟨hnone, trivial⟩
    · exact ⟨eventsReadOff_singleton ⟨line, hline, hform⟩, trivial⟩
    · exact ⟨eventsReadOff_singleton ⟨line, hline, hform⟩, trivial⟩
    · exact ⟨eventsReadOff_singleton ⟨line, hline, hform⟩, trivial⟩
    · exact ⟨eventsReadOff_singleton ⟨line, hline, hform⟩, trivial⟩
    · exact ⟨fun t ht ↦ absurd ht (by simp), trivial⟩
    · split
      · exact ⟨eventsReadOff_singleton ⟨line, hline, _, hform⟩, trivial⟩
      · exact ⟨hnone, line, hline, _, hform⟩
    · split_ifs
      · exact ⟨eventsReadOff_singleton trivial, trivial⟩
      · exact ⟨hnone, trivial⟩

theorem Block.ReadOff.scanFrom {block : Block} (h : block.ReadOff ls) (number : Int)
    {rest : List Text} (hrest : ∀ line ∈ rest, line ∈ ls) :
    EventsReadOff ls (scanFrom number block rest) := by
  induction rest generalizing number block with
  | nil => exact h.finish
  | cons line rest ih =>
    obtain ⟨hline, hrest⟩ := List.forall_mem_cons.mp hrest
    obtain ⟨hevents, hnext⟩ := h.step number hline
    intro t ht
    rcases List.mem_append.mp ht with ht | ht
    · exact hevents t ht
    · exact ih hnext (number + 1) hrest t ht

end Lines

theorem readOff_scan (offset : Int) (body : Text) :
    EventsReadOff (Text.lines body) (scan offset body) := by
  have houtside : Block.outside.ReadOff (Text.lines body) := trivial
  exact houtside.scanFrom _ fun line hline ↦ hline

def Token.import? (t : Token) : Option Import :=
  match t.declaration with
  | .imported name path resolved => some ⟨t.line, name, path, resolved⟩
  | _ => none

/-- What looking for the imports makes of a token: the file found is put into an import, and with it
the framework may be another one; everything else stays. -/
inductive AfterLookup (locator : Locator E) : Token → Token → Prop
  /-- An import has the answer of the locator. -/
  | imported {line : Int} {name path : Text} {old resolved : Option Text}
    (found : (locator path line).found = .ok resolved) :
    AfterLookup locator ⟨line, .imported name path old⟩ ⟨line, .imported name path resolved⟩
  /-- Any other token stays what it is. -/
  | other {t : Token} (other : t.import? = none) : AfterLookup locator t t

theorem forall₂_of_locate {file : Text} {locator : Locator E} {events : List Event}
    {tokens : List Token} (h : (locate file locator events).tokens = .ok tokens) :
    List.Forall₂ (AfterLookup locator) (tokensOf events) tokens := by
  fun_induction locate file locator events generalizing tokens with
  | case1 =>
    obtain rfl := Except.ok.inj h
    exact .nil
  | case2 => cases h
  | case3 line name path _ rest lookup resolved hfound scanned =>
    rename_i ih
    obtain ⟨more, hmore, rfl⟩ := exists_of_map_eq_ok h
    exact .cons (.imported hfound) (ih hmore)
  | case4 t rest hother scanned =>
    rename_i ih
    obtain ⟨more, hmore, rfl⟩ := exists_of_map_eq_ok h
    refine .cons (.other ?_) (ih hmore)
    obtain ⟨line, declaration⟩ := t
    cases declaration with
    | imported => exact absurd rfl (hother _ _ _ _)
    | _ => rfl
  | case5 event rest _ hother scanned =>
    rename_i ih
    cases event with
    | token t => exact absurd rfl (hother t)
    | _ => exact ih h

theorem exists_of_locate {file : Text} {locator : Locator E} {events : List Event}
    {tokens : List Token} (h : (locate file locator events).tokens = .ok tokens) :
    ∀ t ∈ tokens, ∃ before, .token before ∈ events ∧ AfterLookup locator before t := by
  have hevents : ∀ t ∈ tokensOf events, Event.token t ∈ events := by
    intro t ht
    obtain ⟨event, hmem, heq⟩ := List.mem_filterMap.mp ht
    cases event <;> cases heq
    exact hmem
  have hpairs := forall₂_of_locate h
  generalize tokensOf events = before at hpairs hevents
  clear h
  induction hpairs with
  | nil => exact fun t ht ↦ absurd ht List.not_mem_nil
  | cons hfirst _ ih =>
    obtain ⟨hmem, hrest⟩ := List.forall_mem_cons.mp hevents
    exact List.forall_mem_cons.mpr ⟨⟨_, hmem, hfirst⟩, ih hrest⟩

theorem readOff_of_locate {file : Text} {locator : Locator E} {ls : List Text} {events : List Event}
    {tokens : List Token} (hevents : EventsReadOff ls events)
    (h : (locate file locator events).tokens = .ok tokens) :
    ∀ t ∈ tokens, t.declaration.ReadOff ls := by
  intro t ht
  obtain ⟨before, hbefore, hafter⟩ := exists_of_locate h t ht
  have hread := hevents before hbefore
  cases hafter with
  | imported | other => exact hread

end Source

/-! ## Components -/

namespace Component

/-- Whether everything that a component declares is declared under a name. -/
structure WellNamed (c : Component) : Prop where
  name : Text.IsName c.name
  imports : ∀ i ∈ c.imports, Text.IsName i.name
  vars : ∀ v ∈ c.vars, Text.IsName v.name
  functions : ∀ f ∈ c.functions, Text.IsName f.name

theorem WellNamed.declare (h : c.WellNamed) {token : Source.Token}
    (htoken : token.declaration.WellNamed) : (c.declare token).WellNamed := by
  obtain ⟨hname, himports, hvars, hfunctions⟩ := h
  rw [Component.declare]
  split <;> rename_i hdeclaration <;> rw [hdeclaration] at htoken
  · exact ⟨hname, List.forall_mem_append.mpr ⟨himports, List.forall_mem_singleton.mpr htoken⟩,
      hvars, hfunctions⟩
  · exact ⟨hname, himports,
      List.forall_mem_append.mpr ⟨hvars, List.forall_mem_singleton.mpr htoken⟩, hfunctions⟩
  · exact ⟨hname, himports,
      List.forall_mem_append.mpr ⟨hvars, List.forall_mem_singleton.mpr htoken⟩, hfunctions⟩
  · exact ⟨hname, himports, hvars,
      List.forall_mem_append.mpr ⟨hfunctions, List.forall_mem_singleton.mpr htoken⟩⟩
  · exact ⟨hname, himports, hvars, hfunctions⟩
  · exact ⟨htoken, himports, hvars, hfunctions⟩

/-- What one declaration keeps holds of what a list of them declares. -/
theorem ofTokens_induction {P : Component → Prop} {file : Text} {fields : FrontMatter}
    {tokens : List Source.Token} (hstart : P { file, fields })
    (hdeclare : ∀ t ∈ tokens, ∀ c, P c → P (c.declare t)) : P (ofTokens file fields tokens) := by
  have hfold : ∀ c, P c → P (tokens.foldl declare c) := by
    clear hstart
    induction tokens with
    | nil => exact fun c hc ↦ hc
    | cons t rest ih =>
      obtain ⟨ht, hrest⟩ := List.forall_mem_cons.mp hdeclare
      exact fun c hc ↦ ih hrest _ (ht c hc)
  exact hfold _ hstart

theorem wellNamed_ofTokens (file : Text) (fields : FrontMatter) {tokens : List Source.Token}
    (h : ∀ t ∈ tokens, t.declaration.WellNamed) : (ofTokens file fields tokens).WellNamed := by
  have hdefault : Text.IsName "Component" := by decide
  exact ofTokens_induction ⟨hdefault, by simp, by simp, by simp⟩ fun t ht c hc ↦ hc.declare (h t ht)

/-- The declarations of a component that was read are read off the lines of the source. -/
theorem exists_of_read {file : Text} {locator : Source.Locator E} {parts : FrontMatter.Extracted}
    (h : (read file locator parts).component = .ok c) :
    ∃ tokens : List Source.Token, (∀ t ∈ tokens, t.declaration.ReadOff (Text.lines parts.body)) ∧
      c = ofTokens file parts.fields tokens := by
  rw [read] at h
  split at h
  · cases h
  · next tokens htokens =>
    exact ⟨tokens, Source.readOff_of_locate (Source.readOff_scan _ _) htokens,
      (Except.ok.inj h).symm⟩

/-- **A source declares under names.** -/
theorem wellNamed_of_read {file : Text} {locator : Source.Locator E} {parts : FrontMatter.Extracted}
    (h : (read file locator parts).component = .ok c) : c.WellNamed := by
  obtain ⟨tokens, htokens, rfl⟩ := exists_of_read h
  exact wellNamed_ofTokens _ _ fun t ht ↦ (htokens t ht).wellNamed

theorem wellNamed_ofSource (file source : Text) : (ofSource file source).WellNamed := by
  refine wellNamed_ofTokens _ _ fun t ht ↦ ?_
  obtain ⟨event, hevent, htoken⟩ := List.mem_filterMap.mp ht
  cases event with
  | token u =>
    obtain rfl := Option.some.inj htoken
    exact (Source.readOff_scan _ _ u hevent).wellNamed
  | _ => cases htoken

/-- Whether the parts of a component that lines declare have no line feeds. -/
structure OneLine (c : Component) : Prop where
  vars : ∀ v ∈ c.vars, '\n' ∉ v.expression
  functions : ∀ f ∈ c.functions, '\n' ∉ f.parameters

theorem OneLine.declare (h : c.OneLine) {ls : List Text} (hls : ∀ l ∈ ls, '\n' ∉ l)
    {token : Source.Token} (htoken : token.declaration.ReadOff ls) : (c.declare token).OneLine := by
  obtain ⟨hvars, hfunctions⟩ := h
  -- What stands in a line that was read has no line feed either.
  have hpart : ∀ {form t line}, Source.readLine line = form → line ∈ ls →
      (form.Says line → t <:+: line) → '\n' ∉ t := by
    rintro form t line rfl hline hsaid hmem
    exact hls line hline ((hsaid (Source.says_readLine line)).subset hmem)
  rw [Component.declare]
  split <;> rename_i hdeclaration <;> rw [hdeclaration] at htoken
  · exact ⟨hvars, hfunctions⟩
  · obtain ⟨line, hline, hread⟩ := htoken
    have hvalue := hpart hread hline Source.isInfix_of_reactive?
    exact ⟨List.forall_mem_append.mpr ⟨hvars, List.forall_mem_singleton.mpr hvalue⟩, hfunctions⟩
  · obtain ⟨line, hline, hread⟩ := htoken
    have hvalue := hpart hread hline Source.isInfix_of_computed?
    exact ⟨List.forall_mem_append.mpr ⟨hvars, List.forall_mem_singleton.mpr hvalue⟩, hfunctions⟩
  · obtain ⟨line, hline, rest, hread⟩ := htoken
    have hparameters := hpart hread hline Source.isInfix_of_function?
    exact ⟨hvars, List.forall_mem_append.mpr
      ⟨hfunctions, List.forall_mem_singleton.mpr hparameters⟩⟩
  · exact ⟨hvars, hfunctions⟩
  · exact ⟨hvars, hfunctions⟩

theorem oneLine_of_read {file : Text} {locator : Source.Locator E} {parts : FrontMatter.Extracted}
    (h : (read file locator parts).component = .ok c) : c.OneLine := by
  obtain ⟨tokens, htokens, rfl⟩ := exists_of_read h
  exact ofTokens_induction ⟨by simp, by simp⟩ fun t ht c hc ↦
    hc.declare (Text.notMem_of_mem_lines parts.body) (htokens t ht)

theorem WellNamed.variableNames (h : c.WellNamed) : ∀ n ∈ c.variableNames, Text.IsName n := by
  intro n hn
  obtain ⟨v, hv, rfl⟩ := List.mem_map.mp (mem_distinct.mp hn)
  exact h.vars v hv

end Component

/-! ## Properties -/

namespace Property

theorem isName_of_member? {chunk : Text} (h : member? chunk = some p) : Text.IsName p.name := by
  simp only [member?, Option.bind_eq_bind, Option.bind_eq_some_iff] at h
  obtain ⟨⟨word, _⟩, hword, _, -, hsome⟩ := h
  split_ifs at hsome
  all_goals
    obtain rfl := Option.some.inj hsome
    exact .of_word? hword

theorem isName_of_mem_members {body : Text} (h : p ∈ members body) : Text.IsName p.name := by
  obtain ⟨chunk, -, hmember⟩ := List.mem_filterMap.mp h
  exact isName_of_member? hmember

theorem isName_of_readTypeEntry {rest : Text} (h : readTypeEntry t = some (p, rest)) :
    Text.IsName p.name := by
  simp only [readTypeEntry, Option.bind_eq_bind, Option.bind_eq_some_iff] at h
  obtain ⟨⟨word, _⟩, hword, _, -, _, -, _, -, hsome⟩ := h
  split at hsome
  all_goals
    obtain ⟨rfl, -⟩ := Prod.mk.inj (Option.some.inj hsome)
    exact .of_word? hword

theorem isName_of_readQuotedName {name rest : Text} (h : readQuotedName t = some (name, rest)) :
    Text.IsName name := by
  simp only [readQuotedName, Option.bind_eq_bind, Option.bind_eq_some_iff] at h
  obtain ⟨_, -, ⟨word, _⟩, hword, _, -, hsome⟩ := h
  obtain ⟨rfl, -⟩ := Prod.mk.inj (Option.some.inj hsome)
  exact .of_word? hword

theorem isName_of_readPropEntry {name settings rest : Text}
    (h : readPropEntry t = some ((name, settings), rest)) : Text.IsName name := by
  simp only [readPropEntry, Option.bind_eq_bind, Option.bind_eq_some_iff] at h
  obtain ⟨⟨word, _⟩, hword, _, -, _, -, hsome⟩ := h
  obtain ⟨rfl, -⟩ := Prod.mk.inj (Prod.mk.inj (Option.some.inj hsome)).1
  exact .of_word? hword

theorem name_ofEntry (name settings : Text) : (ofEntry name settings).name = name := by
  rw [ofEntry]
  split_ifs <;> rfl

theorem isName_of_readExported {rest : Text} (h : readExported t = some (p, rest)) :
    Text.IsName p.name := by
  simp only [readExported, Option.bind_eq_bind, Option.bind_eq_some_iff] at h
  obtain ⟨_, -, _, -, _, -, _, -, ⟨word, _⟩, hword, hsome⟩ := h
  split at hsome
  all_goals
    obtain ⟨rfl, -⟩ := Prod.mk.inj (Option.some.inj hsome)
    exact .of_word? hword

variable {source : Text} {p : Property}

theorem isName_of_mem_ofPropsTypes (h : p ∈ ofPropsTypes source) : Text.IsName p.name := by
  obtain ⟨body, -, hmem⟩ := List.mem_flatMap.mp h
  exact isName_of_mem_members hmem

theorem isName_of_mem_ofTypeTables (h : p ∈ ofTypeTables source) : Text.IsName p.name := by
  obtain ⟨table, -, hmem⟩ := List.mem_flatMap.mp h
  obtain ⟨_, _, hread⟩ := Text.exists_of_mem_findAll hmem
  exact isName_of_readTypeEntry hread

theorem isName_of_mem_ofPropsOptions (h : p ∈ ofPropsOptions source) : Text.IsName p.name := by
  rw [ofPropsOptions, List.mem_append, List.mem_append] at h
  rcases h with (harray | hobject) | hargument
  · obtain ⟨name, hname, rfl⟩ := List.mem_map.mp harray
    obtain ⟨array, -, hmem⟩ := List.mem_flatMap.mp hname
    obtain ⟨_, _, hread⟩ := Text.exists_of_mem_findAll hmem
    exact isName_of_readQuotedName hread
  · obtain ⟨⟨name, settings⟩, hentry, rfl⟩ := List.mem_map.mp hobject
    obtain ⟨object, -, hmem⟩ := List.mem_flatMap.mp hentry
    obtain ⟨_, _, hread⟩ := Text.exists_of_mem_findAll hmem
    rw [name_ofEntry]
    exact isName_of_readPropEntry hread
  · obtain ⟨body, -, hmem⟩ := List.mem_flatMap.mp hargument
    exact isName_of_mem_members hmem

theorem mem_of_mem_distinct {properties : List Property} (h : p ∈ distinct properties) :
    p ∈ properties := by
  have hstep : ∀ (seen : List Property) (first q : Property),
      q ∈ (if seen.any (·.name == first.name) then seen else seen ++ [first]) →
        q ∈ seen ∨ first = q := by
    intro seen first q hq
    split_ifs at hq
    · exact .inl hq
    · simpa [eq_comm] using hq
  obtain ⟨q, hq, rfl⟩ := (exists_of_mem_foldl hstep h).resolve_left List.not_mem_nil
  exact hq

end Property

/-- **Whatever the framework, properties have names.** -/
theorem Framework.isName_of_mem_properties {framework : Framework} {source : Text}
    (h : p ∈ framework.properties source) : Text.IsName p.name := by
  have hmem := Property.mem_of_mem_distinct h
  cases framework with
  | react =>
    rcases List.mem_append.mp hmem with htype | htable
    · exact Property.isName_of_mem_ofPropsTypes htype
    · exact Property.isName_of_mem_ofTypeTables htable
  | vue => exact Property.isName_of_mem_ofPropsOptions hmem
  | svelte =>
    obtain ⟨_, _, hread⟩ := Text.exists_of_mem_findAll hmem
    exact Property.isName_of_readExported hread
  | solid => exact Property.isName_of_mem_ofPropsTypes hmem
  | unknown => exact Property.isName_of_mem_ofPropsTypes hmem

/-- Whether an imported component and its properties have names. -/
structure Definition.WellNamed (d : Definition) : Prop where
  name : Text.IsName d.name
  properties : ∀ p ∈ d.properties, Text.IsName p.name

/-- What a program may be given to know of the imports of a component: what the source says alone,
or what their files say. -/
def Component.Knows (c : Component) (definitions : List Definition) : Prop :=
  definitions = c.definitions ∨ ∃ tree, (Compile.definitions tree c).1 = .ok definitions

theorem Compile.isName_of_importedProperties {tree : FileTree} {i : Import}
    {properties : List Property} (h : (importedProperties tree i).1 = .ok properties) :
    ∀ p ∈ properties, Text.IsName p.name := by
  have hnone : (Except.ok [] : Except FileError (List Property)) = .ok properties →
      ∀ p ∈ properties, Text.IsName p.name := by
    intro heq
    obtain rfl := Except.ok.inj heq
    exact fun p hp ↦ absurd hp List.not_mem_nil
  unfold importedProperties at h
  split at h
  · exact hnone h
  · exact hnone h
  · split at h
    · cases h
    · exact hnone h
    · split at h
      · obtain rfl := Except.ok.inj h
        exact fun p ↦ Framework.isName_of_mem_properties
      · exact hnone h

theorem Component.WellNamed.definitions (h : c.WellNamed) {definitions : List Definition}
    (hknows : c.Knows definitions) : ∀ d ∈ definitions, d.WellNamed := by
  intro d hd
  rcases hknows with rfl | ⟨tree, hdefinitions⟩
  · obtain ⟨i, hi, rfl⟩ := List.mem_map.mp hd
    exact ⟨h.imports i hi, fun p hp ↦ absurd hp List.not_mem_nil⟩
  · obtain ⟨i, hi, hdefinition⟩ := Noted.exists_of_mem_each hdefinitions hd
    obtain ⟨properties, hproperties, rfl⟩ := exists_of_map_eq_ok hdefinition
    exact ⟨h.imports i hi, Compile.isName_of_importedProperties hproperties⟩

/-! ## Templates -/

namespace Markup

theorem isName_of_readHandler {handler rest : Text} (h : readHandler t = some (handler, rest)) :
    Text.IsName handler := by
  simp only [readHandler, Option.bind_eq_bind, Option.bind_eq_some_iff] at h
  obtain ⟨_, -, ⟨word, _⟩, hword, _, -, hsome⟩ := h
  obtain ⟨rfl, -⟩ := Prod.mk.inj (Option.some.inj hsome)
  exact .of_word? hword

/-- Whether an event is spelled as attributes are, and its handler has a name. -/
structure EventBinding.WellNamed (b : EventBinding) : Prop where
  event : ∀ c ∈ b.event, inAttribute c = true
  handler : Text.IsName b.handler

theorem wellNamed_of_found_mem {b : EventBinding} {markup : Text}
    (h : .found b ∈ eventPieces markup) : b.WellNamed := by
  fun_induction eventPieces markup with
  | case1 => exact absurd h List.not_mem_nil
  | case2 c cs hc name rest handler after hread =>
    rename_i ih
    rcases List.mem_cons.mp h with heq | hmem
    · obtain rfl := Piece.found.inj heq
      split_ifs at hread
      refine ⟨List.forall_mem_cons.mpr ⟨hc, fun d hd ↦ List.mem_takeWhile_imp hd⟩, ?_⟩
      exact isName_of_readHandler hread
    · exact ih hmem
  | case3 c cs hc name rest plain =>
    obtain ⟨d, -, hd⟩ := List.mem_map.mp h
    exact nomatch hd
  | case4 c cs hc name rest plain =>
    rename_i ih
    rcases List.mem_append.mp h with hplain | hmem
    · obtain ⟨d, -, hd⟩ := List.mem_map.mp hplain
      exact nomatch hd
    · exact ih hmem
  | case5 c cs hc ih => exact ih (by simpa using h)

theorem wellNamed_of_mem_eventBindings {b : EventBinding} {markup : Text}
    (h : b ∈ eventBindings markup) : b.WellNamed := by
  have hgathered : b ∈ [] ∨ ∃ piece ∈ eventPieces markup, piece = .found b := by
    refine exists_of_mem_foldl (p := fun piece b' ↦ piece = .found b') ?_ h
    intro seen piece b' hb'
    cases piece with
    | plain t => exact .inl hb'
    | found first =>
      dsimp only at hb'
      split_ifs at hb'
      · exact .inl hb'
      · simpa [eq_comm] using hb'
  obtain ⟨piece, hpiece, rfl⟩ := hgathered.resolve_left List.not_mem_nil
  exact wellNamed_of_found_mem hpiece

end Markup

/-! ## Conditions -/

namespace Condition

def Tree.variables : Tree → List Text
  | .literal _ => []
  | .var name => [name]
  | .not operand => operand.variables
  | .and left right | .or left right | .compare _ left right => left.variables ++ right.variables

theorem Derives.known_of_mem_variables {known : List Text} {part : Part} {ts : List Lexeme}
    {tree : Tree} (h : Derives known part ts tree) : ∀ n ∈ tree.variables, n ∈ known := by
  induction h with
  | name _ hknown => exact List.forall_mem_singleton.mpr hknown
  | whole | float | text | yes | no | null => exact fun n hn ↦ absurd hn List.not_mem_nil
  | parentheses _ ih | alone _ ih | plain _ ih | not _ ih | firstNegation _ ih
  | firstConjunction _ ih => exact ih
  | compare _ _ _ left right | and _ _ left right | or _ _ left right =>
    exact List.forall_mem_append.mpr ⟨left, right⟩

theorem known_of_parse {condition : Text} {known : List Text} {tree : Tree}
    (h : parse condition known = .ok tree) : ∀ n ∈ tree.variables, n ∈ known := by
  rw [parse] at h
  split at h
  · cases h
  · next tokens hscan =>
    have hspelled : Spelled tokens := fun token hmem spelling hname ↦
      (scanFrom_names hscan hmem hname).1
    exact ((ofTokens_eq_ok_iff hspelled).mp h).known_of_mem_variables

end Condition

end PageCompiler
