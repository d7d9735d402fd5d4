import PageCompiler.Proofs.EncodedTexts
import PageCompiler.Proofs.OrderedMaps
import PageCompiler.Script.Program

/-!
# The lines of a page

The function of a page finds its elements by the attributes that mark them. There is one line for
this, `Script.selecting`, which names the marker. At the first level it begins the listeners for a
handler, and inside of the function that brings the page up to date it begins the update of what
shows a variable. Nothing else on the page looks like it (`Script.opensSelection`), so that the
selections of a marker can be counted: there are as many as there are listeners
(`Script.count_selecting_pageLines`) and variables (`Script.count_selecting_updateBody`) for it.
-/

namespace PageCompiler

variable {l : Text} {c : Component}

namespace Script

/-! ## Selections -/

/-- The line that goes through the elements with a marker. -/
def selecting (level : Nat) (marker : Text) : Text :=
  line level ("container.querySelectorAll('[" ++ (marker ++ ("]').forEach(el => \x7b" : Text)))

/-- Whether a line may go through elements. -/
def opensSelection (level : Nat) (l : Text) : Bool :=
  (line level "cont").isPrefixOf l && l.getLast? == some '\x7b'

theorem line_append (level : Nat) {t : Text} (h : t ≠ []) (rest : Text) :
    line level (t ++ rest) = line level t ++ rest := by
  have hempty : ∀ u : Text, u ≠ [] → ¬ u.isEmpty = true := fun u hu ↦ by simp [hu]
  rw [line, line, if_neg (hempty _ h), if_neg (hempty _ (by simp [h])), List.append_assoc]

theorem opensSelection_selecting (level : Nat) (marker : Text) :
    opensSelection level (selecting level marker) = true := by
  have hsign : ("container.querySelectorAll('[" : Text) =
      "cont" ++ ("ainer.querySelectorAll('[" : Text) := by decide
  have hclose : ("]').forEach(el => \x7b" : Text) = "]').forEach(el => " ++ ['\x7b'] := by decide
  have hopens : ∀ sign rest close close' : Text,
      sign = "cont" ++ rest → close = close' ++ ['\x7b'] →
      opensSelection level (line level (sign ++ (marker ++ close))) = true := by
    rintro _ rest _ close rfl rfl
    have hne : ("cont" : Text) ≠ [] := List.cons_ne_nil _ _
    rw [List.append_assoc, line_append level hne, opensSelection, Bool.and_eq_true]
    constructor
    · exact List.isPrefixOf_iff_prefix.mpr (List.prefix_append _ _)
    · simp only [← List.append_assoc, List.getLast?_concat, beq_self_eq_true]
  exact hopens _ _ _ _ hsign hclose

theorem selecting_inj {level : Nat} {marker marker' : Text}
    (h : selecting level marker = selecting level marker') : marker = marker' := by
  have hne : ("container.querySelectorAll('[" : Text) ≠ [] := List.cons_ne_nil _ _
  rw [selecting, selecting, line_append level hne, line_append level hne] at h
  exact List.append_cancel_right (List.append_cancel_left h)

theorem count_selecting_eq_zero {level : Nat} {ls : List Text}
    (h : ∀ l ∈ ls, opensSelection level l = false) (marker : Text) :
    ls.count (selecting level marker) = 0 := by
  refine List.count_eq_zero.mpr fun hmem ↦ ?_
  have hfalse := h _ hmem
  rw [opensSelection_selecting] at hfalse
  cases hfalse

/-! ## Other lines -/

theorem getLast?_line_concat (level : Nat) (t : Text) (c : Char) :
    (line level (t ++ [c])).getLast? = some c := by
  rw [line, if_neg (by simp), ← List.append_assoc, List.getLast?_concat]

theorem opensSelection_of_getLast? {level : Nat} {c : Char} (h : l.getLast? = some c)
    (hc : c ≠ '\x7b') : opensSelection level l = false := by
  rw [opensSelection, h, Bool.and_eq_false_iff]
  exact .inr (beq_false_of_ne fun heq ↦ hc (Option.some.inj heq))

theorem opensSelection_const (rest : Text) :
    opensSelection 1 (line 1 (("const " : Text) ++ rest)) = false := rfl

theorem opensSelection_one_line_two (t : Text) : opensSelection 1 (line 2 t) = false := by
  cases t with
  | nil => rfl
  | cons c cs => rfl

theorem exists_variableDeclaration_eq (names : List Text) (v : Variable) :
    ∃ rest, variableDeclaration names v = ("const " : Text) ++ rest := by
  rw [variableDeclaration]
  split_ifs
  · split
    simp only [List.append_assoc]
    exact ⟨_, rfl⟩
  · simp only [List.append_assoc]
    exact ⟨_, rfl⟩

/-- A section is its title, its lines and an empty line, and is left out if it has no items. -/
theorem opensSelection_section {α : Type} {items : List α} {title : Text} {inner : List Text}
    (htitle : opensSelection 1 title = false) (hinner : ∀ l ∈ inner, opensSelection 1 l = false)
    (h : l ∈ if items.isEmpty then [] else title :: inner ++ [[]]) :
    opensSelection 1 l = false := by
  split_ifs at h
  · cases h
  · rw [List.cons_append, List.mem_cons, List.mem_append, List.mem_singleton] at h
    rcases h with rfl | hl | rfl
    · exact htitle
    · exact hinner l hl
    · rfl

theorem opensSelection_variableLines (h : l ∈ variableLines c) : opensSelection 1 l = false := by
  rw [variableLines] at h
  refine opensSelection_section (by rfl) (fun l hl ↦ ?_) h
  obtain ⟨v, -, rfl⟩ := List.mem_map.mp hl
  obtain ⟨rest, hrest⟩ := exists_variableDeclaration_eq c.variableNames v
  rw [hrest]
  exact opensSelection_const rest

theorem opensSelection_scopeLines (h : l ∈ scopeLines c) : opensSelection 1 l = false := by
  simp only [scopeLines, List.mem_cons, List.not_mem_nil, or_false] at h
  rcases h with rfl | rfl
  · split_ifs
    · rfl
    · rw [List.append_assoc]
      rfl
  · rfl

theorem opensSelection_functionDeclaration {names : List Text} {f : Function}
    (h : l ∈ functionDeclaration names f) : opensSelection 1 l = false := by
  rw [functionDeclaration, List.cons_append, List.mem_cons, List.mem_append,
    List.mem_singleton] at h
  rcases h with rfl | hbody | rfl
  · simp only [List.append_assoc]
    exact opensSelection_const _
  · obtain ⟨t, -, rfl⟩ := List.mem_map.mp hbody
    exact opensSelection_one_line_two _
  · rfl

theorem opensSelection_functionLines (h : l ∈ functionLines c) : opensSelection 1 l = false := by
  rw [functionLines] at h
  refine opensSelection_section (by rfl) (fun l hl ↦ ?_) h
  obtain ⟨f, -, hf⟩ := List.mem_flatMap.mp hl
  exact opensSelection_functionDeclaration hf

theorem opensSelection_conditionLines {conditions : OrderedMap (Option Condition.Tree)}
    (h : l ∈ conditionLines conditions) : opensSelection 1 l = false := by
  rw [conditionLines] at h
  split_ifs at h with hempty
  · rw [List.mem_singleton.mp h]
    rfl
  · rw [List.cons_append, List.mem_cons, List.mem_append, List.mem_singleton, List.mem_map] at h
    rcases h with rfl | ⟨row, -, rfl⟩ | rfl
    · rfl
    · exact opensSelection_one_line_two _
    · rfl

theorem writeItems_text (style : JsonStyle) (depth : Nat) (names : List Text) :
    Json.writeItems style depth (names.map .text) = names.map (Json.writeText style.asciiOnly) := by
  induction names with
  | nil => rw [List.map_nil, Json.writeItems, List.map_nil]
  | cons name names ih => rw [List.map_cons, Json.writeItems, Json.writeAt, ih, List.map_cons]

theorem lineFeed_notMem_names (names : List Text) :
    '\n' ∉ (Json.list (names.map .text)).write .spaced := by
  rw [Json.write, Json.writeAt, writeItems_text, Json.bracket]
  split_ifs
  · decide
  · simp only [JsonStyle.spaced, List.cons_append, List.mem_cons, List.mem_append, List.not_mem_nil,
      or_false, not_or]
    refine ⟨by decide, fun hmem ↦ ?_, by decide⟩
    rcases Text.mem_of_mem_join hmem with hmark | ⟨t, ht, hfeed⟩
    · exact absurd hmark (by decide)
    · obtain ⟨name, -, rfl⟩ := List.mem_map.mp ht
      exact Json.lineFeed_notMem_writeText _ _ hfeed

theorem lines_wrapper {d : Definition} (h : Text.IsName d.name) :
    Text.lines d.wrapper = d.wrapperLines := by
  have hname : '\n' ∉ d.name := by
    intro hmem
    exact absurd (h.2 _ hmem) (by decide)
  have hlabel : '\n' ∉ d.framework.label := by cases d.framework <;> decide +kernel
  have hmount : '\n' ∉ d.framework.mountStatement := by cases d.framework <;> decide +kernel
  have hproperties : '\n' ∉ (Json.list (d.properties.map fun p ↦ .text p.name)).write .spaced := by
    have hnames := lineFeed_notMem_names (d.properties.map Property.name)
    rwa [List.map_map] at hnames
  refine Text.lines_unlines (List.cons_ne_nil _ _) ?_
  simp [Definition.wrapperLines, hname, hlabel, hmount, hproperties]

theorem opensSelection_wrapperLines {d : Definition} (h : l ∈ d.wrapperLines) :
    opensSelection 1 (line 1 l) = false := by
  simp only [Definition.wrapperLines, List.mem_cons, List.not_mem_nil, or_false,
    List.append_assoc] at h
  rcases h with rfl | rfl | rfl | rfl | rfl | rfl | rfl | rfl | rfl | rfl | rfl | rfl
  all_goals rfl

theorem opensSelection_componentLines {definitions : List Definition}
    (hnames : ∀ d ∈ definitions, Text.IsName d.name) (h : l ∈ componentLines definitions) :
    opensSelection 1 l = false := by
  rw [componentLines] at h
  refine opensSelection_section (by rfl) (fun l hl ↦ ?_) h
  obtain ⟨d, hd, hline⟩ := List.mem_flatMap.mp hl
  rw [lines_wrapper (hnames d hd)] at hline
  obtain ⟨statement, hstatement, rfl⟩ := List.mem_map.mp hline
  exact opensSelection_wrapperLines hstatement

/-! ## Updates -/

def bindingMarker (name : Text) : Text := "data-bind=\"$" ++ (name ++ ("\"" : Text))

/-- What the function does that brings the page up to date. -/
def updateBody (c : Component) : List Text :=
  c.variableNames.flatMap bindingUpdate ++ conditionUpdate

/-- The lines that update what shows a variable: they go through the elements with its marker. -/
def updating (name : Text) : List Text :=
  [selecting 2 (bindingMarker name), line 3 ("el.textContent = " ++ name ++ ".value;"),
   line 2 "\x7d);"]

theorem bindingUpdate_eq (name : Text) : bindingUpdate name = updating name := by
  have hstart : ("container.querySelectorAll('[data-bind=\"$" : Text) =
      "container.querySelectorAll('[" ++ ("data-bind=\"$" : Text) := by decide
  have hclose : ("\"]').forEach(el => \x7b" : Text) =
      "\"" ++ ("]').forEach(el => \x7b" : Text) := by
    decide
  have hfirst := congrArg (line 2) (Text.append_around hstart hclose name)
  exact congrArg (· :: _) hfirst

theorem count_selecting_bindingUpdate (name other : Text) :
    (bindingUpdate name).count (selecting 2 (bindingMarker other)) =
      if name = other then 1 else 0 := by
  have hrest : [line 3 ("el.textContent = " ++ name ++ ".value;"), line 2 "\x7d);"].count
      (selecting 2 (bindingMarker other)) = 0 := by
    refine count_selecting_eq_zero ?_ _
    intro l hl
    simp only [List.append_assoc, List.mem_cons, List.not_mem_nil, or_false] at hl
    rcases hl with rfl | rfl
    · rfl
    · rfl
  rw [bindingUpdate_eq, updating, List.count_cons, hrest, Nat.zero_add]
  by_cases h : name = other
  · rw [if_pos h, h, beq_self_eq_true, if_pos rfl]
  · rw [if_neg h, if_neg]
    intro heq
    have hmarker := selecting_inj (eq_of_beq heq)
    exact h (List.append_cancel_right (List.append_cancel_left hmarker))

/-- The lines that update what is shown under conditions, by what is asked of them: the texts are
long, and are looked at once. -/
theorem conditionUpdate_lines : ∀ l ∈ conditionUpdate, '\n' ∉ l ∧ ("    " : Text) <+: l ∧
    (l = selecting 2 "data-if" ∨ opensSelection 2 l = false) := by
  decide +kernel

theorem count_selecting_conditionUpdate (name : Text) :
    conditionUpdate.count (selecting 2 (bindingMarker name)) = 0 := by
  refine List.count_eq_zero.mpr fun hmem ↦ ?_
  rcases (conditionUpdate_lines _ hmem).2.2 with heq | hfalse
  · -- The two attributes differ in their sixth character.
    have hsixth : some 'b' = some 'i' := congrArg (·[5]?) (selecting_inj heq)
    exact absurd hsixth (by decide)
  · rw [opensSelection_selecting] at hfalse
    cases hfalse

/-- The update of what shows a variable is there once for each variable. -/
theorem count_selecting_updateBody (c : Component) (name : Text) :
    (updateBody c).count (selecting 2 (bindingMarker name)) = c.variableNames.count name := by
  rw [updateBody, List.count_append, count_selecting_conditionUpdate, Nat.add_zero]
  induction c.variableNames with
  | nil => rfl
  | cons first names ih =>
    rw [List.flatMap_cons, List.count_append, count_selecting_bindingUpdate, ih, List.count_cons,
      Nat.add_comm]
    simp only [beq_iff_eq]

theorem updating_isInfix {name : Text} (h : name ∈ c.variableNames) :
    updating name <:+: updateBody c := by
  obtain ⟨front, back, hsplit⟩ := List.append_of_mem h
  rw [← bindingUpdate_eq, updateBody, hsplit, List.flatMap_append, List.flatMap_cons]
  exact ⟨front.flatMap bindingUpdate, back.flatMap bindingUpdate ++ conditionUpdate, by
    simp only [List.append_assoc]⟩

theorem deep_of_mem_updateBody (h : l ∈ updateBody c) : ("    " : Text) <+: l := by
  rw [updateBody, List.mem_append, List.mem_flatMap] at h
  rcases h with ⟨name, -, hl⟩ | hl
  · simp only [bindingUpdate, List.append_assoc, List.mem_cons, List.not_mem_nil, or_false] at hl
    rcases hl with rfl | rfl | rfl
    · exact List.isPrefixOf_iff_prefix.mp rfl
    · exact List.isPrefixOf_iff_prefix.mp rfl
    · exact List.isPrefixOf_iff_prefix.mp rfl
  · exact (conditionUpdate_lines l hl).2.1

/-- The function that brings the page up to date ends at the first line that closes it. -/
theorem close_notMem_updateBody (c : Component) : ("  \x7d;" : Text) ∉ updateBody c :=
  fun hmem ↦ absurd (deep_of_mem_updateBody hmem) (by decide)

theorem opensSelection_updateBody (h : l ∈ updateBody c) : opensSelection 1 l = false := by
  obtain ⟨rest, rfl⟩ := deep_of_mem_updateBody h
  rfl

/-- What stands in front of the table of conditions. -/
def updateHead : List Text :=
  [line 1 "// DOM bindings", line 1 "const container = document.getElementById('app');"]

/-- What stands behind the function that brings the page up to date. -/
def updateEnd (c : Component) : List Text :=
  [[], line 1 "updateAll();", line 1 "MTMComponents.mountAll(scope);"] ++
    c.reactiveVariables.map fun v ↦ line 1 (v.name ++ ".subscribe(() => updateAll());")

theorem updateLines_eq (c : Component) (lowered : Lowered) :
    updateLines c lowered = updateHead ++ (conditionLines lowered.conditions ++
      [] :: ("  const updateAll = () => \x7b" : Text) :: (updateBody c ++
        ("  \x7d;" : Text) :: updateEnd c)) := by
  have hupdate : line 1 "const updateAll = () => \x7b" = "  const updateAll = () => \x7b" := by
    decide
  have hclose : line 1 "\x7d;" = "  \x7d;" := by decide
  have hsplit : ∀ (front table body conditions calls subscriptions : List Text)
      (update close update' close' : Text), update = update' → close = close' →
      front ++ table ++ [[], update] ++ body ++ conditions ++ (close :: calls) ++ subscriptions =
        front ++ (table ++ [] :: update' :: (body ++ conditions ++
          close' :: (calls ++ subscriptions))) := by
    rintro front table body conditions calls subscriptions update close _ _ rfl rfl
    simp only [List.append_assoc, List.cons_append, List.nil_append]
  exact hsplit _ _ _ _ _ _ _ _ _ _ hupdate hclose

/-- The function of a page has the table of conditions, and behind it the function that brings the
page up to date. -/
theorem exists_pageLines_eq (c : Component) (definitions : List Definition) (lowered : Lowered) :
    ∃ front back, pageLines c definitions lowered =
      front ++ (conditionLines lowered.conditions ++
        [] :: ("  const updateAll = () => \x7b" : Text) :: (updateBody c ++
          ("  \x7d;" : Text) :: back)) := by
  have hinfix : updateLines c lowered <:+: pageLines c definitions lowered :=
    (List.infix_append _ _ _).trans (List.prefix_append _ _).isInfix
  obtain ⟨front, back, hlines⟩ := hinfix
  refine ⟨front ++ updateHead, updateEnd c ++ back, ?_⟩
  rw [← hlines, updateLines_eq]
  simp only [List.append_assoc, List.cons_append]

theorem exists_program_eq_unlines (c : Component) (definitions : List Definition)
    (withLibrary : Bool) (lowered : Lowered) :
    ∃ front back, program c definitions withLibrary lowered =
      Text.unlines (front ++ pageLines c definitions lowered ++ back) := ⟨_, _, rfl⟩

theorem opensSelection_updateEnd (h : l ∈ updateEnd c) : opensSelection 1 l = false := by
  rcases List.mem_append.mp h with hcall | hsubscription
  · have hall : ∀ l ∈ [[], line 1 "updateAll();", line 1 "MTMComponents.mountAll(scope);"],
        opensSelection 1 l = false := by decide +kernel
    exact hall l hcall
  · obtain ⟨v, -, rfl⟩ := List.mem_map.mp hsubscription
    have hsemicolon : (".subscribe(() => updateAll());" : Text) =
        ".subscribe(() => updateAll())" ++ [';'] := by decide
    have hlast : ∀ call call' : Text, call = call' ++ [';'] →
        (line 1 (v.name ++ call)).getLast? = some ';' := by
      rintro _ call rfl
      rw [← List.append_assoc, getLast?_line_concat]
    exact opensSelection_of_getLast? (hlast _ _ hsemicolon) (by decide)

theorem opensSelection_updateLines {lowered : Lowered} (h : l ∈ updateLines c lowered) :
    opensSelection 1 l = false := by
  rw [updateLines_eq] at h
  simp only [List.mem_append, List.mem_cons] at h
  rcases h with hhead | htable | rfl | rfl | hbody | rfl | hend
  · have hall : ∀ l ∈ updateHead, opensSelection 1 l = false := by decide +kernel
    exact hall l hhead
  · exact opensSelection_conditionLines htable
  · rfl
  · rfl
  · exact opensSelection_updateBody hbody
  · rfl
  · exact opensSelection_updateEnd hend

/-! ## Listeners -/

open Markup

/-- The lines that listen for an event: they go through the elements with the marker of a
handler. -/
def listening (b : EventBinding) : List Text :=
  [selecting 1 b.render,
   line 2 ("el.addEventListener('" ++ b.event ++ "', (e) => " ++ b.handler ++ "(e));"),
   line 1 "\x7d);"]

theorem listener_eq (b : EventBinding) : listener b = [] :: listening b := by
  have hclose : ("\"]').forEach(el => \x7b" : Text) =
      "\"" ++ ("]').forEach(el => \x7b" : Text) := by
    decide
  have hfirst : ∀ start marker mark handler close quote rest : Text, close = quote ++ rest →
      start ++ marker ++ mark ++ handler ++ close =
        start ++ (marker ++ mark ++ handler ++ quote ++ rest) := by
    rintro start marker mark handler _ quote rest rfl
    simp only [List.append_assoc]
  exact congrArg (fun first ↦ [] :: first :: _)
    (congrArg (line 1) (hfirst _ _ _ _ _ _ _ hclose))

theorem count_selecting_listener (b : EventBinding) (marker : Text) :
    (listener b).count (selecting 1 marker) = if b.render = marker then 1 else 0 := by
  have hempty : ¬ ([] == selecting 1 marker) = true := fun h ↦ by cases eq_of_beq h
  have hrest : [line 2 ("el.addEventListener('" ++ b.event ++ "', (e) => " ++ b.handler ++ "(e));"),
      line 1 "\x7d);"].count (selecting 1 marker) = 0 := by
    refine count_selecting_eq_zero ?_ _
    intro l hl
    simp only [List.mem_cons, List.not_mem_nil, or_false] at hl
    rcases hl with rfl | rfl
    · exact opensSelection_one_line_two _
    · rfl
  rw [listener_eq, List.count_cons, if_neg hempty, listening, List.count_cons, hrest]
  by_cases h : b.render = marker
  · rw [if_pos h, h, beq_self_eq_true, if_pos rfl]
  · rw [if_neg h, if_neg fun heq ↦ h (selecting_inj (eq_of_beq heq))]

theorem count_selecting_eventLines (c : Component) (events : List EventBinding) (marker : Text) :
    (eventLines c events).count (selecting 1 marker) =
      ((events.filter (isDeclared c)).map EventBinding.render).count marker := by
  rw [eventLines]
  induction events.filter (isDeclared c) with
  | nil => rfl
  | cons b declared ih =>
    rw [List.flatMap_cons, List.count_append, count_selecting_listener, ih, List.map_cons,
      List.count_cons, Nat.add_comm]
    simp only [beq_iff_eq]

/-- The function of a page goes through the elements with a marker as often as there are declared
handlers with this marker. -/
theorem count_selecting_pageLines (c : Component) {definitions : List Definition}
    (hnames : ∀ d ∈ definitions, Text.IsName d.name) (lowered : Lowered) (marker : Text) :
    (pageLines c definitions lowered).count (selecting 1 marker) =
      ((lowered.events.filter (isDeclared c)).map EventBinding.render).count marker := by
  have hhead : ∀ l ∈ ["// Page component: " ++ c.name,
      "function " ++ pageFunction c.name ++ "() \x7b"], opensSelection 1 l = false := by
    intro l hl
    simp only [List.append_assoc, List.mem_cons, List.not_mem_nil, or_false] at hl
    rcases hl with rfl | rfl
    · rfl
    · rfl
  have hend : ∀ l ∈ [("\x7d" : Text), []], opensSelection 1 l = false := by decide
  rw [pageLines]
  simp only [List.count_append, count_selecting_eq_zero hhead, count_selecting_eq_zero hend,
    count_selecting_eq_zero fun l hl ↦ opensSelection_variableLines hl,
    count_selecting_eq_zero fun l hl ↦ opensSelection_scopeLines hl,
    count_selecting_eq_zero fun l hl ↦ opensSelection_functionLines hl,
    count_selecting_eq_zero fun l hl ↦ opensSelection_componentLines hnames hl,
    count_selecting_eq_zero fun l hl ↦ opensSelection_updateLines hl,
    count_selecting_eventLines, Nat.zero_add, Nat.add_zero]

theorem listening_isInfix {definitions : List Definition} {lowered : Lowered} {b : EventBinding}
    (hb : b ∈ lowered.events) (hdeclared : isDeclared c b = true) :
    listening b <:+: pageLines c definitions lowered := by
  have hmem : b ∈ lowered.events.filter (isDeclared c) := List.mem_filter.mpr ⟨hb, hdeclared⟩
  obtain ⟨front, back, hsplit⟩ := List.append_of_mem hmem
  have hevents : listening b <:+: eventLines c lowered.events := by
    rw [eventLines, hsplit, List.flatMap_append, List.flatMap_cons, listener_eq]
    refine ⟨front.flatMap listener ++ [[]], back.flatMap listener, ?_⟩
    simp only [List.append_assoc, List.cons_append, List.nil_append]
  exact hevents.trans (List.infix_append _ _ _)

end Script

end PageCompiler
