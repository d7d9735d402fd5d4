import PageCompiler.Proofs.ConditionNodes
import PageCompiler.Proofs.ProgramLines
import PageCompiler.Proofs.ScriptClosing
import PageCompiler.Proofs.ScriptPlaces

/-!
# The constants of a page

The function that sets a page up declares the variables and the functions of the source as
constants, and between them some constants of its own. A name that is declared twice there spoils
the whole program. Which names are declared is read off the text of the program: the function is
laid out so that what stands directly in it is at the first level, and what stands further inside is
at a deeper one (`Script.constant?`).

Every part of the function comes with two facts (`Script.Declares`): its lines are inside of the
function, so that it ends where its last line says, and they declare certain names. Both facts go
through when parts are put together.
-/

namespace PageCompiler

variable {α : Type} {t l : Text} {lowered : Lowered}

namespace Script

/-! ## Lines inside of a function -/

/-- The name that a line declares at the first level. -/
def constant? (l : Text) : Option Text :=
  (Text.after? "  const " l).bind fun rest ↦ (Text.word? rest).map Prod.fst

/-- Whether a text is a line inside of a function: it is empty, or it begins with a blank. -/
def IsInside (l : Text) : Prop := '\n' ∉ l ∧ ∀ c ∈ l.head?, c = ' '

instance (l : Text) : Decidable (IsInside l) := inferInstanceAs (Decidable (_ ∧ _))

/-- `Declares ls names`: lines inside of a function that declare these names at the first level. -/
structure Declares (ls names : List Text) : Prop where
  isInside : ∀ l ∈ ls, IsInside l
  constants : ls.filterMap constant? = names

namespace Declares

theorem nil : Declares [] [] := ⟨by simp, rfl⟩

theorem append {ls ls' names names' : List Text} (h : Declares ls names)
    (h' : Declares ls' names') : Declares (ls ++ ls') (names ++ names') :=
  ⟨List.forall_mem_append.mpr ⟨h.isInside, h'.isInside⟩, by
    rw [List.filterMap_append, h.constants, h'.constants]⟩

theorem flatMap {as : List α} {f : α → List Text} {g : α → List Text}
    (h : ∀ a ∈ as, Declares (f a) (g a)) : Declares (as.flatMap f) (as.flatMap g) := by
  induction as with
  | nil => exact nil
  | cons a as ih =>
    obtain ⟨ha, has⟩ := List.forall_mem_cons.mp h
    exact ha.append (ih has)

theorem flatMap_nil {as : List α} {f : α → List Text} (h : ∀ a ∈ as, Declares (f a) []) :
    Declares (as.flatMap f) [] := by
  have hall := flatMap (g := fun _ ↦ []) h
  rwa [List.flatMap_eq_nil_iff.mpr fun _ _ ↦ rfl] at hall

theorem map_nil {as : List α} {f : α → Text} (h : ∀ a ∈ as, Declares [f a] []) :
    Declares (as.map f) [] := by
  rw [List.map_eq_flatMap]
  exact flatMap_nil h

theorem of_forall {ls : List Text} (h : ∀ l ∈ ls, IsInside l ∧ constant? l = none) :
    Declares ls [] :=
  ⟨fun l hl ↦ (h l hl).1, List.filterMap_eq_nil_iff.mpr fun l hl ↦ (h l hl).2⟩

end Declares

theorem isInside_line (h : '\n' ∉ t) (level : Nat) : IsInside (line (level + 1) t) := by
  rw [line]
  split_ifs
  · exact ⟨by simp, by simp⟩
  · refine ⟨?_, ?_⟩
    · simp [h]
    · simp [Nat.mul_add, List.replicate_succ]

theorem declares_line (hconst : Text.startsWith t "const " = false) (h : '\n' ∉ t) :
    Declares [line 1 t] [] := by
  refine .of_forall (List.forall_mem_singleton.mpr ⟨isInside_line h 0, ?_⟩)
  have hnone : Text.after? "const " t = none := by
    rwa [Text.startsWith, Option.isSome_eq_false_iff, Option.isNone_iff_eq_none] at hconst
  rw [line]
  split_ifs
  · rfl
  · exact congrArg (Option.bind · _) hnone

theorem declares_deep (h : '\n' ∉ t) (level : Nat) : Declares [line (level + 2) t] [] := by
  refine .of_forall (List.forall_mem_singleton.mpr ⟨isInside_line h _, ?_⟩)
  rw [line]
  split_ifs
  · rfl
  · rw [Nat.mul_add]
    rfl

theorem declares_const {name rest : Text} (hname : Text.IsName name)
    (hrest : rest.head? = some ' ') (h : '\n' ∉ rest) :
    Declares [line 1 ("const " ++ (name ++ rest))] [name] := by
  refine ⟨List.forall_mem_singleton.mpr (isInside_line ?_ 0), ?_⟩
  · simp [hname.notMem_lineFeed, h]
  · have hne : ("const " : Text) ≠ [] := List.cons_ne_nil _ _
    have hmark : line 1 "const " = "  const " := by decide
    have hword : Text.word? (name ++ rest) = some (name, rest) :=
      hname.word?_append fun c hc ↦ by
        obtain rfl := Option.some.inj (hrest.symm.trans hc)
        decide
    have hconstant : constant? (line 1 ("const " ++ (name ++ rest))) = some name := by
      rw [line_append 1 hne, hmark, constant?, Text.after?_append, Option.bind_some, hword,
        Option.map_some]
    rw [List.filterMap_cons, hconstant]
    rfl

theorem declares_empty : Declares [[]] [] := .of_forall (by decide)

/-! ## Variables -/

theorem lineFeed_notMem_dereference {script : Text} (h : '\n' ∉ script) (names : List Text) :
    '\n' ∉ dereference names script :=
  fun hmem ↦ h ((alike_dereference names script).symm.mem_of_isBlank (by decide) hmem)

theorem lineFeed_notMem_signal {v : Variable} (hname : Text.IsName v.name)
    (hline : '\n' ∉ v.expression) : '\n' ∉ (signal v).1 ∧ '\n' ∉ (signal v).2 := by
  rw [signal]
  cases hcall : signalCall? (Text.trim v.expression) with
  | none => exact ⟨hname.notMem_lineFeed, hline⟩
  | some call =>
    obtain ⟨hkey, hinitial⟩ := isInfix_of_signalCall? hcall
    have htrim := Text.isInfix_trim v.expression
    exact ⟨fun hmem ↦ hline ((hkey.trans htrim).subset hmem),
      fun hmem ↦ hline ((hinitial.trans htrim).subset hmem)⟩

theorem declares_variableDeclaration {v : Variable} (hname : Text.IsName v.name)
    (hline : '\n' ∉ v.expression) (names : List Text) :
    Declares [line 1 (variableDeclaration names v)] [v.name] := by
  obtain ⟨hkey, hinitial⟩ := lineFeed_notMem_signal hname hline
  cases hreactive : v.reactive with
  | true =>
    have hdeclaration : variableDeclaration names v = "const " ++ (v.name ++
        (" = MTMRouter.create('" ++ ((signal v).1 ++ ("', " ++
          (dereference names (signal v).2 ++ (");" : Text)))))) := by
      rw [variableDeclaration, if_pos hreactive]
      simp only [List.append_assoc]
      rfl
    rw [hdeclaration]
    refine declares_const hname rfl ?_
    simp [hkey, lineFeed_notMem_dereference hinitial]
  | false =>
    have hdeclaration : variableDeclaration names v = "const " ++ (v.name ++
        (" = \x7b value: (" ++ (dereference names v.expression ++ (") \x7d;" : Text)))) := by
      rw [variableDeclaration, if_neg (by simp [hreactive])]
      simp only [List.append_assoc]
    rw [hdeclaration]
    refine declares_const hname rfl ?_
    simp [lineFeed_notMem_dereference hline]

theorem declares_section {α : Type} {items : List α} {title : Text} {inner names : List Text}
    (htitle : Declares [title] []) (hempty : items = [] → inner = []) (h : Declares inner names) :
    Declares (if items.isEmpty then [] else title :: inner ++ [[]]) names := by
  split_ifs with hnone
  · rwa [hempty (List.isEmpty_iff.mp hnone)] at h
  · simpa using (htitle.append h).append declares_empty

section Page

variable {c : Component} (hc : c.WellNamed) (hline : c.OneLine)

include hc hline in
theorem declares_variableLines : Declares (variableLines c) (c.vars.map Variable.name) := by
  refine declares_section (declares_line rfl (by decide)) (fun h ↦ by rw [h]; rfl) ?_
  rw [List.map_eq_flatMap, List.map_eq_flatMap]
  exact .flatMap fun v hv ↦ declares_variableDeclaration (hc.vars v hv) (hline.vars v hv) _

include hc in
theorem declares_scopeLines : Declares (scopeLines c) ["scope"] := by
  have hnames : '\n' ∉ Text.join ", " c.variableNames := by
    intro hmem
    rcases Text.mem_of_mem_join hmem with hmark | ⟨name, hname, hfeed⟩
    · exact absurd hmark (by decide)
    · exact (hc.variableNames name hname).notMem_lineFeed hfeed
  have hscope : Text.IsName "scope" := by decide
  have hempty : ("const scope = \x7b\x7d;" : Text) =
      "const " ++ ("scope" ++ (" = \x7b\x7d;" : Text)) := by decide
  have hobject : ("const scope = \x7b " : Text) =
      "const " ++ ("scope" ++ (" = \x7b " : Text)) := by decide
  have hfirst : Declares [if c.variableNames.isEmpty then line 1 "const scope = \x7b\x7d;"
      else line 1 ("const scope = \x7b " ++ Text.join ", " c.variableNames ++ " \x7d;")]
        ["scope"] := by
    split_ifs
    · rw [hempty]
      exact declares_const hscope rfl (by decide)
    · rw [hobject, List.append_assoc, List.append_assoc, List.append_assoc]
      refine declares_const hscope rfl (List.not_mem_append (by decide) ?_)
      exact List.not_mem_append hnames (by decide)
  exact hfirst.append declares_empty

/-! ## Functions -/

theorem lineFeed_notMem_bodyLine (h : '\n' ∉ l) (indent : Nat) :
    '\n' ∉ Text.trimRight (l.drop indent) := fun hmem ↦
  h (List.mem_of_mem_drop ((Text.isPrefix_trimRight _).subset hmem))

theorem declares_bodyLines (names : List Text) (body : Text) :
    Declares (bodyLines names body) [] := by
  refine .map_nil fun l hl ↦ declares_deep (lineFeed_notMem_bodyLine ?_ _) 0
  have hreverse := (List.dropWhile_sublist _).subset (List.mem_reverse.mp hl)
  exact Text.notMem_of_mem_lines _ l
    ((List.dropWhile_sublist _).subset (List.mem_reverse.mp hreverse))

theorem declares_functionDeclaration {f : Function} (hname : Text.IsName f.name)
    (hparameters : '\n' ∉ f.parameters) (names : List Text) :
    Declares (functionDeclaration names f) [f.name] := by
  have hopening : Declares [line 1 ("const " ++ f.name ++ " = (" ++ f.parameters ++ ") => \x7b")]
      [f.name] := by
    simp only [List.append_assoc]
    exact declares_const hname rfl (by simp [hparameters])
  have hclosing : Declares [line 1 "\x7d;"] [] := declares_line rfl (by decide)
  exact hopening.append ((declares_bodyLines names f.body).append hclosing)

include hc hline in
theorem declares_functionLines : Declares (functionLines c) (c.functions.map Function.name) := by
  refine declares_section (declares_line rfl (by decide)) (fun h ↦ by rw [h]; rfl) ?_
  rw [List.map_eq_flatMap]
  exact .flatMap fun f hf ↦
    declares_functionDeclaration (hc.functions f hf) (hline.functions f hf) _

/-! ## Components -/

theorem declares_wrapperLine {d : Definition} (hname : Text.IsName d.name)
    (hl : l ∈ d.wrapperLines) :
    Declares [line 1 l] [] := by
  have hfeed : '\n' ∉ l :=
    Text.notMem_of_mem_lines d.wrapper l (by rwa [lines_wrapper hname])
  refine declares_line ?_ hfeed
  simp only [Definition.wrapperLines, List.mem_cons, List.not_mem_nil, or_false,
    List.append_assoc] at hl
  rcases hl with rfl | rfl | rfl | rfl | rfl | rfl | rfl | rfl | rfl | rfl | rfl | rfl
  all_goals rfl

theorem declares_componentLines {definitions : List Definition}
    (hnames : ∀ d ∈ definitions, Text.IsName d.name) :
    Declares (componentLines definitions) [] := by
  refine declares_section (declares_line rfl (by decide)) (fun h ↦ by rw [h]; rfl) ?_
  refine .flatMap_nil fun d hd ↦ ?_
  rw [lines_wrapper (hnames d hd)]
  exact .map_nil fun l hl ↦ declares_wrapperLine (hnames d hd) hl

/-! ## Updates -/

theorem lineFeed_notMem_scriptOf {entry : Option Condition.Tree}
    (h : ∀ tree ∈ entry, tree.toJson.IsReadable) : '\n' ∉ Condition.scriptOf entry := by
  cases entry with
  | none => decide
  | some tree => exact fun hmem ↦ absurd (Json.isPlain_writeAt (h tree rfl) 0 _ hmem) (by decide)

theorem declares_conditionLines {conditions : OrderedMap (Option Condition.Tree)}
    (h : ∀ row ∈ conditions, ∀ tree ∈ row.2, tree.toJson.IsReadable) :
    Declares (conditionLines conditions) ["conditions"] := by
  have hname : Text.IsName "conditions" := by decide
  have hempty : ("const conditions = \x7b\x7d;" : Text) =
      "const " ++ ("conditions" ++ (" = \x7b\x7d;" : Text)) := by decide
  have hobject : ("const conditions = \x7b" : Text) =
      "const " ++ ("conditions" ++ (" = \x7b" : Text)) := by decide
  rw [conditionLines]
  split_ifs
  · rw [hempty]
    exact declares_const hname rfl (by decide)
  · have hopening : Declares [line 1 "const conditions = \x7b"] ["conditions"] := by
      rw [hobject]
      exact declares_const hname rfl (by decide)
    have hrows : Declares (conditions.map fun row ↦ line 2 (Json.writeText false row.1 ++ ": " ++
        Condition.scriptOf row.2 ++ ",")) [] := by
      refine .map_nil fun row hrow ↦ declares_deep ?_ 0
      simp [Json.lineFeed_notMem_writeText, lineFeed_notMem_scriptOf (h row hrow)]
    have hclosing : Declares [line 1 "\x7d;"] [] := declares_line rfl (by decide)
    exact (hopening.append hrows).append hclosing

include hc in
theorem declares_updateBody : Declares (updateBody c) [] := by
  have hconditions : Declares conditionUpdate [] := by
    refine .of_forall fun l hl ↦ ?_
    obtain ⟨hfeed, ⟨rest, rfl⟩, -⟩ := conditionUpdate_lines l hl
    exact ⟨⟨hfeed, fun c hc ↦ (Option.some.inj hc).symm⟩, rfl⟩
  refine Declares.append (.flatMap_nil fun name hname ↦ ?_) hconditions
  have hfeed := (hc.variableNames name hname).notMem_lineFeed
  have hselect : Declares [line 2 ("container.querySelectorAll('[data-bind=\"$" ++ name ++
      "\"]').forEach(el => \x7b")] [] := declares_deep (by simp [hfeed]) 0
  have htext : Declares [line 3 ("el.textContent = " ++ name ++ ".value;")] [] :=
    declares_deep (by simp [hfeed]) 1
  have hclose : Declares [line 2 "\x7d);"] [] := declares_deep (by decide) 0
  exact hselect.append (htext.append hclose)

theorem startsWith_name_dot {name : Text} (hname : Text.IsName name) (rest : Text) :
    Text.startsWith (name ++ '.' :: rest) "const " = false := by
  rw [Bool.eq_false_iff, Ne, Text.startsWith_iff]
  rintro ⟨more, hmore⟩
  have hconst : ("const " : Text) = "const" ++ [' '] := by decide
  have hword : ∀ c ∈ ("const" : Text), isWord c = true := by decide
  have hblank : isWord ' ' = false := by decide
  have hdot : isWord '.' = false := by decide
  rw [hconst, List.append_assoc] at hmore
  -- Both words end where something else begins: a blank on the one side, the dot on the other.
  have htake := congrArg (List.takeWhile isWord) hmore
  rw [Text.takeWhile_append_of_stop hword (by simpa using hblank),
    Text.takeWhile_append_of_stop hname.2 (by simpa using hdot)] at htake
  rw [htake, List.append_cancel_left_eq] at hmore
  exact absurd (List.cons.inj hmore).1 (by decide)

include hc in
theorem declares_updateEnd : Declares (updateEnd c) [] := by
  have hcalls : Declares [[], line 1 "updateAll();", line 1 "MTMComponents.mountAll(scope);"] [] :=
    .of_forall (by decide +kernel)
  have hdot : (".subscribe(() => updateAll());" : Text) =
      '.' :: ("subscribe(() => updateAll());" : Text) := by decide
  refine hcalls.append (.map_nil fun v hv ↦ ?_)
  have hname := hc.vars v (List.mem_of_mem_filter hv)
  rw [hdot]
  exact declares_line (startsWith_name_dot hname _) (by simp [hname.notMem_lineFeed])

include hc in
theorem declares_updateLines
    (h : ∀ row ∈ lowered.conditions, ∀ tree ∈ row.2, tree.toJson.IsReadable) :
    Declares (updateLines c lowered) ["container", "conditions", "updateAll"] := by
  have hhead : Declares updateHead ["container"] := ⟨by decide +kernel, by decide +kernel⟩
  have hupdate : Declares [[], ("  const updateAll = () => \x7b" : Text)] ["updateAll"] :=
    ⟨by decide +kernel, by decide +kernel⟩
  have hclose : Declares [("  \x7d;" : Text)] [] := .of_forall (by decide +kernel)
  rw [updateLines_eq]
  exact hhead.append ((declares_conditionLines h).append
    (hupdate.append ((declares_updateBody hc).append (hclose.append (declares_updateEnd hc)))))

/-! ## Events -/

theorem declares_listener {b : Markup.EventBinding} (h : b.WellNamed) :
    Declares (listener b) [] := by
  have hevent : '\n' ∉ b.event := fun hmem ↦ absurd (h.event _ hmem) (by decide)
  have hhandler := h.handler.notMem_lineFeed
  have hmarker : '\n' ∉ b.marker := by
    rw [Markup.EventBinding.marker]
    split_ifs
    · decide
    · simp [hevent]
  have hselect : Declares [line 1 ("container.querySelectorAll('[" ++ b.marker ++ "=\"$" ++
      b.handler ++ "\"]').forEach(el => \x7b")] [] := by
    refine declares_line ?_ (by simp [hmarker, hhandler])
    simp only [List.append_assoc]
    rfl
  have hlisten : Declares [line 2 ("el.addEventListener('" ++ b.event ++ "', (e) => " ++
      b.handler ++ "(e));")] [] := declares_deep (by simp [hevent, hhandler]) 0
  have hclose : Declares [line 1 "\x7d);"] [] := declares_line rfl (by decide)
  exact declares_empty.append (hselect.append (hlisten.append hclose))

theorem declares_eventLines {events : List Markup.EventBinding} (h : ∀ b ∈ events, b.WellNamed) :
    Declares (eventLines c events) [] :=
  .flatMap_nil fun b hb ↦ declares_listener (h b (List.mem_of_mem_filter hb))

/-! ## The function -/

def innerLines (c : Component) (definitions : List Definition) (lowered : Lowered) : List Text :=
  variableLines c ++ scopeLines c ++ functionLines c ++ componentLines definitions ++
    updateLines c lowered ++ eventLines c lowered.events

/-- The names that the function of a page declares. -/
def declaredConstants (c : Component) : List Text :=
  c.vars.map Variable.name ++ [("scope" : Text)] ++ c.functions.map Function.name ++
    [("container" : Text), "conditions", "updateAll"]

include hc hline in
theorem declares_innerLines {definitions : List Definition}
    (hdefinitions : ∀ d ∈ definitions, Text.IsName d.name)
    (hconditions : ∀ row ∈ lowered.conditions, ∀ tree ∈ row.2, tree.toJson.IsReadable)
    (hevents : ∀ b ∈ lowered.events, b.WellNamed) :
    Declares (innerLines c definitions lowered) (declaredConstants c) := by
  have hall := (((((declares_variableLines hc hline).append (declares_scopeLines hc)).append
    (declares_functionLines hc hline)).append (declares_componentLines hdefinitions)).append
      (declares_updateLines hc hconditions)).append (declares_eventLines (c := c) hevents)
  rwa [List.append_nil, List.append_nil] at hall

end Page

/-- The lines of the last function of a program: they end at the last line that is a brace, and
begin behind the line that opens the function. -/
def pageBody (script : Text) : List Text :=
  ((((Text.lines script).reverse.dropWhile (· != ("\x7d" : Text))).drop 1).takeWhile
    fun l ↦ !Text.startsWith l "function ").reverse

/-- The names that the last function of a program declares. -/
def pageConstants (script : Text) : List Text := (pageBody script).filterMap constant?

theorem IsInside.startsWith (h : IsInside l) : Text.startsWith l "function " = false := by
  cases l with
  | nil => rfl
  | cons c l =>
    rw [h.2 c rfl]
    rfl

theorem pageBody_unlines {front body back : List Text} {opening : Text} (hfront : front ≠ [])
    (hopening : Text.startsWith opening "function " = true) (hfeed : '\n' ∉ opening)
    (hbody : ∀ l ∈ body, IsInside l) (hback : ∀ l ∈ back, l ≠ ("\x7d" : Text) ∧ '\n' ∉ l) :
    pageBody (Text.unlines (front ++ opening :: (body ++ ("\x7d" : Text) :: back))) = body := by
  have hline : ∀ l ∈ opening :: (body ++ ("\x7d" : Text) :: back), '\n' ∉ l := by
    refine List.forall_mem_cons.mpr ⟨hfeed, List.forall_mem_append.mpr ⟨?_, ?_⟩⟩
    · exact fun l hl ↦ (hbody l hl).1
    · exact List.forall_mem_cons.mpr ⟨by decide, fun l hl ↦ (hback l hl).2⟩
  have hdrop : ∀ l ∈ back.reverse, (l != ("\x7d" : Text)) = true := fun l hl ↦
    bne_iff_ne.mpr (hback l (List.mem_reverse.mp hl)).1
  have htake : ∀ l ∈ body.reverse, (!Text.startsWith l "function ") = true := fun l hl ↦ by
    rw [(hbody l (List.mem_reverse.mp hl)).startsWith]
    rfl
  rw [pageBody, Text.unlines_append hfront (List.cons_ne_nil _ _), Text.lines_append_lineFeed,
    Text.lines_unlines (List.cons_ne_nil _ _) hline]
  generalize ("\x7d" : Text) = close at *
  generalize Text.lines (Text.unlines front) = before
  -- Read backwards, the brace comes first, and the line that opens the function stops the reading.
  have hreverse : (before ++ opening :: (body ++ close :: back)).reverse =
      back.reverse ++ close :: (body.reverse ++ opening :: before.reverse) := by simp
  rw [hreverse, List.dropWhile_append_of_pos hdrop, List.dropWhile_cons_of_neg (by simp),
    List.drop_one, List.tail_cons, List.takeWhile_append_of_pos htake,
    List.takeWhile_cons_of_neg (by rw [hopening]; decide), List.append_nil, List.reverse_reverse]

theorem pageBody_program {c : Component} {definitions : List Definition}
    (h : ∀ l ∈ innerLines c definitions lowered, IsInside l) (withLibrary : Bool) :
    pageBody (program c definitions withLibrary lowered) = innerLines c definitions lowered := by
  have hfunction : '\n' ∉ pageFunction c.name :=
    notMem_pageFunction (by decide) (by decide) (by decide) c.name
  have hcall := isInside_line (t := pageFunction c.name ++ ("();" : Text)) (by simp [hfunction]) 0
  have hstart : ∀ l ∈ [] :: startLines c, l ≠ ("\x7d" : Text) ∧ '\n' ∉ l := by
    simp only [startLines, List.forall_mem_cons]
    refine ⟨by decide, by decide, by decide, ⟨fun heq ↦ ?_, hcall.1⟩, by decide, by simp⟩
    rw [heq] at hcall
    exact absurd hcall (by decide)
  have hprogram : ∃ front, front ≠ [] ∧ program c definitions withLibrary lowered =
      Text.unlines (front ++ ("function " ++ pageFunction c.name ++ "() \x7b") ::
        (innerLines c definitions lowered ++ ("\x7d" : Text) :: [] :: startLines c)) := by
    -- What comes before the function may have lines of any form, and is not looked at.
    refine ⟨(if withLibrary then libraryLines ++ [[]] else []) ++ metadataLines c ++
      ["// Page component: " ++ c.name], by simp, ?_⟩
    rw [program, pageLines, innerLines]
    simp only [List.append_assoc, List.cons_append, List.nil_append]
  obtain ⟨front, hfront, hscript⟩ := hprogram
  rw [hscript]
  refine pageBody_unlines hfront ?_ ?_ h hstart
  · rw [List.append_assoc]
    rfl
  · simp [hfunction]

/-- The constants that the function of a page has of its own. -/
def ownConstants : List Text := ["scope", "container", "conditions", "updateAll"]

end Script

namespace Component

open Script

def declaredNames (c : Component) : List Text :=
  c.vars.map Variable.name ++ c.functions.map Function.name

theorem perm_declaredConstants (c : Component) :
    (declaredConstants c).Perm (c.declaredNames ++ ownConstants) := by
  have hscope : ([("scope" : Text)] ++ c.functions.map Function.name).Perm
      (c.functions.map Function.name ++ [("scope" : Text)]) := List.perm_append_comm
  have hnames := (hscope.append_left (c.vars.map Variable.name)).append_right
    [("container" : Text), "conditions", "updateAll"]
  simp only [List.append_assoc] at hnames
  rw [declaredConstants, declaredNames]
  simp only [List.append_assoc]
  exact hnames

section Generation

variable {E : Type} {file : Text} {locator : Source.Locator E} {parts : FrontMatter.Extracted}
  {c : Component} {mode : ScriptMode} {definitions : List Definition} {withLibrary : Bool}
  {generated : Generated}

theorem pageConstants_generate (hread : (read file locator parts).component = .ok c)
    (hknows : c.Knows definitions)
    (h : (c.generate mode definitions withLibrary).result = .ok generated) :
    pageConstants generated.script = declaredConstants c := by
  have hc : c.WellNamed := wellNamed_of_read hread
  obtain ⟨hscript, hevents, htable⟩ := generate_eq_ok h
  have hdeclares : Declares (innerLines c definitions generated.template)
      (declaredConstants c) := by
    apply declares_innerLines hc (oneLine_of_read hread)
    · exact fun d hd ↦ (hc.definitions hknows d hd).name
    · intro row hrow tree htree
      exact Condition.isReadable_of_parse (Lowering.parse_of_mem_table htable hrow htree)
    · intro b hb
      rw [hevents] at hb
      exact Markup.wellNamed_of_mem_eventBindings hb
  rw [hscript, pageConstants, pageBody_program hdeclares.isInside, hdeclares.constants]

/-- **When the constants of a page are distinct.** The function of a page declares the variables and
the functions of the source, and four constants of its own. Nothing keeps the names of a source from
being one of these four. -/
theorem constants_nodup_iff (hread : (read file locator parts).component = .ok c)
    (hknows : c.Knows definitions)
    (h : (c.generate mode definitions withLibrary).result = .ok generated)
    (hnodup : c.declaredNames.Nodup) :
    (pageConstants generated.script).Perm (c.declaredNames ++ ownConstants) ∧
      ((pageConstants generated.script).Nodup ↔ ∀ n ∈ ownConstants, n ∉ c.declaredNames) := by
  have hperm := c.perm_declaredConstants
  have hown : ownConstants.Nodup := by decide
  rw [pageConstants_generate hread hknows h, hperm.nodup_iff, List.nodup_append]
  refine ⟨hperm, fun hboth n hn hmem ↦ hboth.2.2 n hmem n hn rfl, fun hapart ↦ ?_⟩
  exact ⟨hnodup, hown, fun n hn m hm heq ↦ hapart m hm (heq ▸ hn)⟩

end Generation

/-- A source with a variable, a function, an import and a condition. -/
def chartSource : Text :=
  "import Chart from './Chart.jsx'\n$n! = 1\n$add = (by) => \x7b\n  $n += by\n\x7d\n" ++
    "<template>\n\x7b#if $n < 2\x7d<Chart/>\x7b/if\x7d\n</template>"

theorem chart_constants_distinct :
    ∃ c generated,
      (read "page.mtm" (Source.noLookup : Source.Locator Empty)
        (FrontMatter.extract chartSource)).component = .ok c ∧
      c.declaredNames = ["n", "add"] ∧
      (c.generate .inline c.definitions true).result = .ok generated ∧
      (pageConstants generated.script).Nodup := by
  have hread : (read "page.mtm" (Source.noLookup : Source.Locator Empty)
      (FrontMatter.extract chartSource)).component = .ok (ofSource "page.mtm" chartSource) := rfl
  have hnames : (ofSource "page.mtm" chartSource).declaredNames = ["n", "add"] := by decide +kernel
  have htable : (Lowering.tableFrom (ofSource "page.mtm" chartSource) []
      (ofSource "page.mtm" chartSource).blocks).conditions =
      .ok [("$n < 2", some (.compare .below (.var "n") (.literal (.whole 2))))] := by
    decide +kernel
  generalize ofSource "page.mtm" chartSource = c at *
  obtain ⟨⟨generated, hgenerated, -⟩, -⟩ := (c.generate_eq .inline c.definitions true).2 _ htable
  have hiff := (constants_nodup_iff hread (.inl rfl) hgenerated (by rw [hnames]; decide)).2
  refine ⟨c, generated, hread, hnames, hgenerated, hiff.mpr ?_⟩
  rw [hnames]
  decide

/-- A variable with the name of a constant of the page is declared twice. -/
theorem scope_declared_twice :
    (ofSource "page.mtm" "$scope! = 1").declaredNames = ["scope"] ∧
      ∃ generated, scriptOf "$scope! = 1" = .ok generated ∧
        pageConstants generated.script =
          [("scope" : Text), "scope", "container", "conditions", "updateAll"] := by
  have hread : (read "page.mtm" (Source.noLookup : Source.Locator Empty)
      (FrontMatter.extract "$scope! = 1")).component =
        .ok (ofSource "page.mtm" "$scope! = 1") := rfl
  have hconstants : declaredConstants (ofSource "page.mtm" "$scope! = 1") =
      [("scope" : Text), "scope", "container", "conditions", "updateAll"] := by decide +kernel
  have htable : (Lowering.tableFrom (ofSource "page.mtm" "$scope! = 1") []
      (ofSource "page.mtm" "$scope! = 1").blocks).conditions = .ok [] := by decide +kernel
  obtain ⟨⟨generated, hgenerated, -⟩, -⟩ := (generate_eq (ofSource "page.mtm" "$scope! = 1") .inline
    (ofSource "page.mtm" "$scope! = 1").definitions false).2 _ htable
  refine ⟨by decide +kernel, generated, hgenerated, ?_⟩
  rw [pageConstants_generate hread (.inl rfl) hgenerated, hconstants]

end Component

end PageCompiler
