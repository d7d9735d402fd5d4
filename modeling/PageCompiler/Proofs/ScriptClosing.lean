import PageCompiler.Proofs.ClosingTags
import PageCompiler.Proofs.ConditionTable
import PageCompiler.Proofs.SourceNames

/-!
# Programs that close their own script

A program may stand in the document as it is, and must not have a closing tag in it then. Most of it
is spelled with names, which have none; the metadata has its closing tags broken up. What is left is
the script that the source itself has, the route that the page is registered under, and the
conditions of the template with the texts in them, which are written as they are.

So for a source whose own script is free of closing tags, the program has one exactly when the route
or a condition brings it in, or when replacing references makes one, and that takes a variable whose
name begins like the tag. None of these is kept out.
-/

namespace PageCompiler

variable {α : Type} {l : Text} {c : Component} {d : Char}

namespace Script

/-- Whether one of the lines has a closing tag. -/
def ClosesAny (ls : List Text) : Prop := ∃ l ∈ ls, ClosesScript l

instance (ls : List Text) : Decidable (ClosesAny ls) := inferInstanceAs (Decidable (∃ _ ∈ _, _))

section Lines

variable {t l : Text} {ls ls' : List Text}

@[simp] theorem closesAny_nil : ¬ ClosesAny [] := by simp [ClosesAny]

@[simp] theorem closesAny_cons : ClosesAny (l :: ls) ↔ ClosesScript l ∨ ClosesAny ls :=
  List.exists_mem_cons_iff _ _ _

@[simp] theorem closesAny_append : ClosesAny (ls ++ ls') ↔ ClosesAny ls ∨ ClosesAny ls' := by
  simp [ClosesAny, or_and_right, exists_or]

@[simp] theorem closesAny_map {f : α → Text} {as : List α} :
    ClosesAny (as.map f) ↔ ∃ a ∈ as, ClosesScript (f a) := by simp [ClosesAny]

@[simp] theorem closesAny_flatMap {f : α → List Text} {as : List α} :
    ClosesAny (as.flatMap f) ↔ ∃ a ∈ as, ClosesAny (f a) := by
  simp only [ClosesAny, List.mem_flatMap]
  exact ⟨fun ⟨l, ⟨a, ha, hl⟩, h⟩ ↦ ⟨a, ha, l, hl, h⟩, fun ⟨a, ha, l, hl, h⟩ ↦ ⟨l, ⟨a, ha, hl⟩, h⟩⟩

@[simp] theorem closesScript_line {level : Nat} : ClosesScript (line level t) ↔ ClosesScript t := by
  rw [line]
  split_ifs with hempty
  · rw [List.isEmpty_iff.mp hempty]
  · exact closesScript_append_of_notMem (by simp)

theorem closesAny_lines : ClosesAny (Text.lines t) ↔ ClosesScript t := by
  rw [ClosesAny, ← closesScript_unlines, Text.unlines_lines]

/-! ## Literals

What is written word for word is checked by its characters. They are taken from `String.ofList`,
which spares the kernel the decoding of the literals.
-/

section Literals

variable {s : String} (hs : s = String.ofList l)

include hs

theorem not_closesScript_literal (h : ¬ ['<', '/'] <:+: l) : ¬ ClosesScript s := by
  rw [hs, String.toList_ofList]
  exact fun hcloses ↦ h hcloses.signs

theorem not_closesAny_map_cons {ss : List String} (h : ¬ ['<', '/'] <:+: l)
    (hss : ¬ ClosesAny (ss.map String.toList)) : ¬ ClosesAny ((s :: ss).map String.toList) := by
  rw [List.map_cons, closesAny_cons, or_iff_left hss]
  exact not_closesScript_literal hs h

theorem not_closesAny_line_cons {level : Nat} (h : ¬ ['<', '/'] <:+: l) (hls : ¬ ClosesAny ls) :
    ¬ ClosesAny (line level s :: ls) := by
  rw [closesAny_cons, closesScript_line, or_iff_left hls]
  exact not_closesScript_literal hs h

end Literals

theorem not_closesAny_libraryLines : ¬ ClosesAny libraryLines := by
  unfold libraryLines
  dsimp only
  repeat refine not_closesAny_map_cons rfl (by decide +kernel) ?_
  exact closesAny_nil

theorem not_closesAny_conditionUpdate : ¬ ClosesAny conditionUpdate := by
  unfold conditionUpdate
  repeat refine not_closesAny_line_cons rfl (by decide +kernel) ?_
  exact closesAny_nil

end Lines

/-! ## Metadata -/

theorem closesAny_metadataLines (c : Component) :
    ClosesAny (metadataLines c) ↔ ClosesScript (registeredRoute c) := by
  have hremark : ¬ ClosesScript ("// Page metadata" : Text) := by decide
  have hobject : ¬ ClosesScript ("const pageMetadata = " ++ metadataObject c.fields ++ ";") := by
    rw [List.append_assoc, closesScript_append_of_notMem (by decide)]
    rw [closesScript_append_mark (by decide)]
    exact not_closesScript_replace _
  have hroute : ClosesScript ("MTMRouter.routes.set(" ++
      (Json.text (registeredRoute c)).write .spaced ++ ", pageMetadata);") ↔
      ClosesScript (registeredRoute c) := by
    rw [List.append_assoc, closesScript_append_of_notMem (by decide),
      closesScript_append_mark (by decide)]
    exact Json.closesScript_writeText true _
  have hempty : ¬ ClosesScript ("" : Text) := by decide
  simp only [metadataLines, closesAny_cons, closesAny_nil, hremark, hobject, hroute, hempty,
    false_or, or_false]

/-! ## Variables -/

def signal (v : Variable) : Text × Text :=
  (signalCall? (Text.trim v.expression)).getD (v.name, v.expression)

/-- The part of a variable's expression that is its value in the program. -/
def valueOf (v : Variable) : Text := if v.reactive then (signal v).2 else v.expression

theorem isInfix_of_signalCall? {expression key initial : Text}
    (h : signalCall? expression = some (key, initial)) :
    key <:+: expression ∧ initial <:+: expression := by
  simp only [signalCall?, Option.bind_eq_bind, Option.bind_eq_some_iff] at h
  obtain ⟨t₁, h₁, t₂, h₂, ⟨_, t₃⟩, h₃, ⟨run, t₄⟩, h₄, ⟨_, t₅⟩, h₅, t₆, h₆, found, hfound,
    hsome⟩ := h
  split_ifs at hsome
  obtain ⟨rfl, rfl⟩ := Prod.mk.inj (Option.some.inj hsome)
  -- Every reader leaves an end of what it was given: `t₃` begins with the key, `t₆` with the value.
  have hcall : t₃ <:+ expression :=
    (Text.isSuffix_of_char? h₃).trans <| (Text.isSuffix_trimLeft t₂).trans <|
      (Text.isSuffix_of_after? h₂).trans <| (Text.isSuffix_trimLeft t₁).trans
        (Text.isSuffix_of_after? h₁)
  have hrun : t₃ = run ++ t₄ := Text.append_of_run? h₄
  have hrest : t₆ <:+ t₃ :=
    (Text.isSuffix_of_after? h₆).trans <| (Text.isSuffix_trimLeft t₅).trans <|
      (Text.isSuffix_of_char? h₅).trans ⟨run, hrun.symm⟩
  have hclosed : (Text.before? [';'] t₆).getD t₆ <+: t₆ := by
    cases hbefore : Text.before? [';'] t₆ with
    | none => exact List.prefix_refl t₆
    | some front => exact ⟨[';'], (Text.before?_eq_some_iff.mp hbefore).symm⟩
  have hinitial : found <+: t₆ :=
    List.IsPrefix.trans ⟨[')'], (Text.before?_eq_some_iff.mp hfound).symm⟩
      ((Text.isPrefix_trimRight _).trans hclosed)
  refine ⟨List.IsInfix.trans ⟨[], t₄, ?_⟩ hcall.isInfix, ?_⟩
  · exact hrun.symm
  · exact (Text.isInfix_trim found).trans
      (hinitial.isInfix.trans (hrest.isInfix.trans hcall.isInfix))

section Variables

variable {names : List Text} {v : Variable}

theorem not_closesScript_signal (hname : Text.IsName v.name)
    (hexpression : ¬ ClosesScript v.expression) :
    ¬ ClosesScript (signal v).1 ∧ ¬ ClosesScript (signal v).2 := by
  rw [signal]
  cases hcall : signalCall? (Text.trim v.expression) with
  | none => exact ⟨not_closesScript_of_notMem (notMem_of_isWord hname.2), hexpression⟩
  | some call =>
    obtain ⟨key, initial⟩ := call
    obtain ⟨hkey, hinitial⟩ := isInfix_of_signalCall? hcall
    have htrim := Text.isInfix_trim v.expression
    exact ⟨fun h ↦ hexpression (h.mono (hkey.trans htrim)),
      fun h ↦ hexpression (h.mono (hinitial.trans htrim))⟩

theorem not_closesScript_valueOf (hname : Text.IsName v.name)
    (hexpression : ¬ ClosesScript v.expression) : ¬ ClosesScript (valueOf v) := by
  rw [valueOf]
  split_ifs
  · exact (not_closesScript_signal hname hexpression).2
  · exact hexpression

theorem closesScript_variableDeclaration (hname : Text.IsName v.name)
    (hexpression : ¬ ClosesScript v.expression) :
    ClosesScript (variableDeclaration names v) ↔ ClosesScript (dereference names (valueOf v)) := by
  have hnotMem : '<' ∉ v.name := notMem_of_isWord hname.2
  rw [variableDeclaration, valueOf]
  split_ifs
  · have hkey := (not_closesScript_signal hname hexpression).1
    rw [signal] at hkey ⊢
    simp only [List.append_assoc]
    rw [closesScript_append_of_notMem (by decide), closesScript_append_of_notMem hnotMem,
      closesScript_append_of_notMem (by decide), closesScript_append_mark_append (by decide),
      or_iff_right hkey, closesScript_append_mark (by decide)]
  · simp only [List.append_assoc]
    rw [closesScript_append_of_notMem (by decide), closesScript_append_of_notMem hnotMem,
      closesScript_append_of_notMem (by decide), closesScript_append_mark (by decide)]

end Variables

/-! ## Functions -/

theorem closesScript_trimLeft (t : Text) : ClosesScript (Text.trimLeft t) ↔ ClosesScript t := by
  have hblanks : '<' ∉ t.takeWhile isBlank := fun hmem ↦
    absurd (List.mem_takeWhile_imp hmem) (by decide)
  conv_rhs => rw [← List.takeWhile_append_dropWhile (p := isBlank) (l := t)]
  exact (closesScript_append_of_notMem hblanks).symm

theorem closesScript_trimRight (t : Text) : ClosesScript (Text.trimRight t) ↔ ClosesScript t := by
  have hsplit : t = Text.trimRight t ++ (t.reverse.takeWhile isBlank).reverse := by
    rw [Text.trimRight, ← List.reverse_append, List.takeWhile_append_dropWhile,
      List.reverse_reverse]
  have hblanks : ∀ c ∈ (t.reverse.takeWhile isBlank).reverse, isBlank c = true := fun c hc ↦
    List.mem_takeWhile_imp (List.mem_reverse.mp hc)
  conv_rhs => rw [hsplit]
  generalize (t.reverse.takeWhile isBlank).reverse = blanks at hblanks
  cases blanks with
  | nil => rw [List.append_nil]
  | cons c cs =>
    obtain ⟨hc, hcs⟩ := List.forall_mem_cons.mp hblanks
    have hparts : Parts (c :: cs) :=
      ⟨separates_of_isBlank hc, fun hmem ↦ absurd (hcs '<' hmem) (by decide)⟩
    exact (closesScript_append_mark hparts).symm

theorem mem_dropWhile {p : α → Bool} {as : List α} {a : α} (ha : a ∈ as) (hp : p a = false) :
    a ∈ as.dropWhile p := by
  rw [← List.takeWhile_append_dropWhile (p := p) (l := as), List.mem_append] at ha
  refine ha.resolve_left fun hmem ↦ ?_
  rw [List.mem_takeWhile_imp hmem] at hp
  exact nomatch hp

theorem mem_trimLines {ls : List Text} (hl : l ∈ ls) (hblank : Text.isBlankText l = false) :
    l ∈ trimLines ls := by
  rw [trimLines, List.mem_reverse]
  exact mem_dropWhile (List.mem_reverse.mpr (mem_dropWhile hl hblank)) hblank

theorem commonIndentation_le {ls : List Text} (hl : l ∈ ls) (hblank : Text.isBlankText l = false) :
    commonIndentation ls ≤ indentation l := by
  rw [commonIndentation]
  refine List.min?_getD_le_of_mem (List.mem_map_of_mem (List.mem_filter.mpr ⟨hl, ?_⟩))
  rw [hblank]
  rfl

theorem isSuffix_drop {n : Nat} (h : n ≤ indentation l) : Text.trimLeft l <:+ l.drop n := by
  have hsplit := congrArg (List.drop n) (List.takeWhile_append_dropWhile (p := isBlank) (l := l))
  rw [List.drop_append_of_le_length h] at hsplit
  exact ⟨_, hsplit⟩

/-- Moving the lines of a body keeps its closing tags: what is taken off is blank. -/
theorem closesAny_bodyLines (names : List Text) (body : Text) :
    ClosesAny (bodyLines names body) ↔ ClosesScript (dereference names body) := by
  rw [bodyLines, closesAny_map, ← closesAny_lines]
  simp only [closesScript_line, closesScript_trimRight]
  constructor
  · rintro ⟨l, hl, hcloses⟩
    have hmem : l ∈ Text.lines (dereference names body) :=
      (List.dropWhile_sublist _).subset <| List.mem_reverse.mp <|
        (List.dropWhile_sublist _).subset (List.mem_reverse.mp hl)
    exact ⟨l, hmem, hcloses.mono (List.drop_suffix _ l).isInfix⟩
  · rintro ⟨l, hl, hcloses⟩
    -- Only blank lines are dropped, and the common indentation is of lines that are not blank.
    have hblank : Text.isBlankText l = false := by
      by_contra hall
      rw [Bool.not_eq_false, Text.isBlankText, List.all_eq_true] at hall
      exact not_closesScript_of_notMem (fun hmem ↦ absurd (hall '<' hmem) (by decide)) hcloses
    have hmem := mem_trimLines hl hblank
    refine ⟨l, hmem, ?_⟩
    rw [← closesScript_trimLeft] at hcloses
    exact hcloses.mono (isSuffix_drop (commonIndentation_le hmem hblank)).isInfix

theorem closesAny_functionDeclaration {names : List Text} {f : Function}
    (hname : Text.IsName f.name) (hparameters : ¬ ClosesScript f.parameters) :
    ClosesAny (functionDeclaration names f) ↔ ClosesScript (dereference names f.body) := by
  have hhead : ¬ ClosesScript ("const " ++ f.name ++ " = (" ++ f.parameters ++ ") => \x7b") := by
    simp only [List.append_assoc]
    rw [closesScript_append_of_notMem (by decide),
      closesScript_append_of_notMem (notMem_of_isWord hname.2),
      closesScript_append_of_notMem (by decide), closesScript_append_mark (by decide)]
    exact hparameters
  have hend : ¬ ClosesScript ("\x7d;" : Text) := by decide
  simp only [functionDeclaration, List.cons_append, closesAny_cons, closesAny_append, closesAny_nil,
    closesScript_line, closesAny_bodyLines, hhead, hend, false_or, or_false]

/-! ## Components -/

theorem itemTexts_map_text (ts : List Text) : Json.itemTexts (ts.map .text) = ts := by
  induction ts with
  | nil => rfl
  | cons t ts ih => rw [List.map_cons, Json.itemTexts, Json.texts, ih, List.singleton_append]

theorem not_closesScript_names {names : List Text} (h : ∀ n ∈ names, Text.IsName n) :
    ¬ ClosesScript ((Json.list (names.map .text)).write .spaced) := by
  have hspaced : JsonStyle.spaced.OneLine := ⟨rfl, by decide, by decide⟩
  rw [Json.write, Json.closesScript_writeAt hspaced, Json.texts, itemTexts_map_text]
  rintro ⟨n, hn, hcloses⟩
  exact not_closesScript_of_notMem (notMem_of_isWord (h n hn).2) hcloses

theorem not_closesAny_wrapperLines {d : Definition} (h : d.WellNamed) :
    ¬ ClosesAny d.wrapperLines := by
  have hname : '<' ∉ d.name := notMem_of_isWord h.name.2
  have hlabel : '<' ∉ d.framework.label := by cases d.framework <;> decide
  have hmount : ¬ ClosesScript ("    " ++ d.framework.mountStatement) := by
    rw [closesScript_append_of_notMem (by decide)]
    cases d.framework <;> exact not_closesScript_literal rfl (by decide)
  have hprops : ¬ ClosesScript ("  props: " ++
      (Json.list (d.properties.map fun p ↦ .text p.name)).write .spaced ++ ",") := by
    have hnames : ∀ n ∈ d.properties.map Property.name, Text.IsName n :=
      List.forall_mem_map.mpr h.properties
    rw [List.append_assoc, closesScript_append_of_notMem (by decide),
      closesScript_append_mark (by decide)]
    simpa [List.map_map, Function.comp_def] using not_closesScript_names hnames
  -- The tags of the placeholder are not the closing one: a `d` follows their signs.
  have hplaceholder : ¬ ClosesScript ("      el.innerHTML = '<div class=\"" ++ d.framework.label ++
      "-component\">" ++ d.name ++ "</div>';") := by
    have hsplit : "      el.innerHTML = '<div class=\"" ++ d.framework.label ++ "-component\">" ++
        d.name ++ "</div>';" = ("      el.innerHTML = '<" : Text) ++ 'd' :: ("iv class=\"" ++
          (d.framework.label ++ ("-component\">" ++ (d.name ++ "</div>';")))) := by
      simp
    rw [hsplit, closesScript_append_cons (by decide), closesScript_append_of_notMem (by decide),
      closesScript_append_of_notMem hlabel, closesScript_append_of_notMem (by decide),
      closesScript_append_of_notMem hname]
    decide
  simp only [Definition.wrapperLines, closesAny_cons, closesAny_nil, not_or]
  refine ⟨not_closesScript_of_notMem (by simp [hname, hlabel]),
    not_closesScript_of_notMem (by simp [hname, hlabel]), hprops,
    not_closesScript_literal rfl (by decide), not_closesScript_of_notMem (by simp [hname]),
    not_closesScript_literal rfl (by decide), hplaceholder,
    not_closesScript_literal rfl (by decide), not_closesScript_literal rfl (by decide), hmount,
    not_closesScript_literal rfl (by decide), not_closesScript_literal rfl (by decide), not_false⟩

theorem closesAny_section {α : Type} {items : List α} {title : Text} {inner : List Text}
    (htitle : ¬ ClosesScript title) (hinner : items = [] → inner = []) :
    ClosesAny (if items.isEmpty then [] else title :: inner ++ [[]]) ↔ ClosesAny inner := by
  split_ifs with hempty
  · rw [hinner (List.isEmpty_iff.mp hempty)]
  · have hfeed : ¬ ClosesAny [[]] := by decide
    rw [List.cons_append, closesAny_cons, closesAny_append, or_iff_right htitle,
      or_iff_left hfeed]

theorem not_closesAny_componentLines {definitions : List Definition}
    (h : ∀ d ∈ definitions, d.WellNamed) : ¬ ClosesAny (componentLines definitions) := by
  rw [componentLines, closesAny_section (by decide) fun h ↦ by rw [h]; rfl, closesAny_flatMap]
  rintro ⟨d, hd, hwrapper⟩
  rw [closesAny_map] at hwrapper
  simp only [closesScript_line] at hwrapper
  have hcloses : ClosesScript d.wrapper := closesAny_lines.mp hwrapper
  exact not_closesAny_wrapperLines (h d hd) ((closesScript_unlines _).mp hcloses)

end Script

/-! ## Conditions -/

namespace Condition

open Script

/-- The texts that a condition compares with. -/
def Tree.texts : Tree → List Text
  | .literal (.text t) => [t]
  | .literal _ | .var _ => []
  | .not operand => operand.texts
  | .and left right | .or left right | .compare _ left right => left.texts ++ right.texts

/-- The words around the parts of a condition have no closing tag, nor have its variables. -/
theorem Tree.closesAny_texts_toJson (tree : Tree) (h : ∀ n ∈ tree.variables, Text.IsName n) :
    ClosesAny tree.toJson.texts ↔ ClosesAny tree.texts := by
  have hsymbol : ∀ op : Comparison, ¬ ClosesScript op.symbol := by
    intro op
    cases op <;> decide
  induction tree with
  | literal value =>
    cases value <;> simp [toJson, Literal.toJson, Json.texts, Json.memberTexts, texts,
      not_closesScript_of_notMem]
  | var name =>
    have hname := notMem_of_isWord (h name List.mem_cons_self).2
    simp [toJson, Json.texts, Json.memberTexts, texts, not_closesScript_of_notMem, hname]
  | not operand ih =>
    simp [toJson, Json.texts, Json.memberTexts, texts, not_closesScript_of_notMem, ih h]
  | and left right ihleft ihright | or left right ihleft ihright =>
    obtain ⟨hleft, hright⟩ := List.forall_mem_append.mp h
    simp [toJson, Json.texts, Json.memberTexts, texts, not_closesScript_of_notMem, ihleft hleft,
      ihright hright]
  | compare op left right ihleft ihright =>
    obtain ⟨hleft, hright⟩ := List.forall_mem_append.mp h
    simp [toJson, Json.texts, Json.memberTexts, texts, not_closesScript_of_notMem, hsymbol,
      ihleft hleft, ihright hright]

/-- The texts that a row of the table of conditions is written from: the condition, and those that
it compares with. -/
def rowTexts (row : Text × Option Tree) : List Text := row.1 :: (row.2.map Tree.texts).getD []

theorem closesScript_scriptOf {entry : Option Tree}
    (h : ∀ tree ∈ entry, ∀ n ∈ tree.variables, Text.IsName n) :
    ClosesScript (scriptOf entry) ↔ ClosesAny ((entry.map Tree.texts).getD []) := by
  cases entry with
  | none => exact iff_of_false (by decide) closesAny_nil
  | some tree =>
    have hcompact : JsonStyle.compact.OneLine := ⟨rfl, by decide, by decide⟩
    rw [scriptOf, Tree.toScript, Json.write, Json.closesScript_writeAt hcompact]
    exact tree.closesAny_texts_toJson (h tree rfl)

end Condition

namespace Script

open Condition

/-! ## Updates -/

theorem closesAny_conditionLines {conditions : OrderedMap (Option Tree)}
    (h : ∀ row ∈ conditions, ∀ tree ∈ row.2, ∀ n ∈ tree.variables, Text.IsName n) :
    ClosesAny (conditionLines conditions) ↔ ∃ row ∈ conditions, ClosesAny (rowTexts row) := by
  have hrow : ∀ row ∈ conditions, (ClosesScript (line 2 (Json.writeText false row.1 ++ ": " ++
      scriptOf row.2 ++ ",")) ↔ ClosesAny (rowTexts row)) := by
    intro row hrow
    rw [closesScript_line, closesScript_append_mark (by decide), List.append_assoc,
      closesScript_append_mark_append (by decide), Json.closesScript_writeText,
      closesScript_scriptOf (h row hrow), rowTexts, closesAny_cons]
  rw [conditionLines]
  split_ifs with hempty
  · rw [List.isEmpty_iff.mp hempty]
    exact iff_of_false (by decide) (by simp)
  · have hopening : ¬ ClosesScript (line 1 "const conditions = \x7b") := by decide
    have hclosing : ¬ ClosesScript (line 1 "\x7d;") := by decide
    simp only [List.cons_append, closesAny_cons, closesAny_append, closesAny_map, closesAny_nil,
      hopening, hclosing, false_or, or_false]
    exact exists_congr fun row ↦ and_congr_right (hrow row)

theorem not_closesAny_bindingUpdate {name : Text} (h : '<' ∉ name) :
    ¬ ClosesAny (bindingUpdate name) := by
  simp [bindingUpdate, not_closesScript_of_notMem, h]

theorem closesAny_updateLines (hc : c.WellNamed) {lowered : Lowered}
    (h : ∀ row ∈ lowered.conditions, ∀ tree ∈ row.2, ∀ n ∈ tree.variables, Text.IsName n) :
    ClosesAny (updateLines c lowered) ↔ ∃ row ∈ lowered.conditions, ClosesAny (rowTexts row) := by
  have hbindings : ¬ ClosesAny (c.variableNames.flatMap bindingUpdate) := by
    rw [closesAny_flatMap]
    rintro ⟨n, hn, hcloses⟩
    exact not_closesAny_bindingUpdate (notMem_of_isWord (hc.variableNames n hn).2) hcloses
  have hsubscriptions : ¬ ClosesAny (c.reactiveVariables.map fun v ↦
      line 1 (v.name ++ ".subscribe(() => updateAll());")) := by
    rw [closesAny_map]
    rintro ⟨v, hv, hcloses⟩
    have hname := notMem_of_isWord (hc.vars v (List.mem_of_mem_filter hv)).2
    rw [closesScript_line, closesScript_append_of_notMem hname] at hcloses
    exact absurd hcloses (by decide)
  have hhead : ¬ ClosesAny [line 1 "// DOM bindings",
      line 1 "const container = document.getElementById('app');"] := by decide +kernel
  have hopening : ¬ ClosesAny [[], line 1 "const updateAll = () => \x7b"] := by decide +kernel
  have hcalls : ¬ ClosesAny [line 1 "\x7d;", [], line 1 "updateAll();",
      line 1 "MTMComponents.mountAll(scope);"] := by decide +kernel
  rw [updateLines]
  simp only [closesAny_append, hhead, hopening, hcalls, hbindings, hsubscriptions,
    not_closesAny_conditionUpdate, closesAny_conditionLines h, false_or, or_false]

/-! ## Events -/

theorem not_closesAny_eventLines (c : Component) {events : List Markup.EventBinding}
    (h : ∀ b ∈ events, b.WellNamed) : ¬ ClosesAny (eventLines c events) := by
  rw [eventLines, closesAny_flatMap]
  rintro ⟨b, hb, hcloses⟩
  obtain ⟨hevent, hhandler⟩ := h b (List.mem_of_mem_filter hb)
  have hevent : '<' ∉ b.event := fun hmem ↦ absurd (hevent '<' hmem) (by decide)
  have hhandler : '<' ∉ b.handler := notMem_of_isWord hhandler.2
  have hmarker : '<' ∉ b.marker := by
    rw [Markup.EventBinding.marker]
    split_ifs
    · decide
    · simp [hevent]
  simp [listener, not_closesScript_of_notMem, hevent, hhandler, hmarker] at hcloses

/-! ## The whole -/

theorem eq_of_toUpper_eq {c : Char} (hletter : isLatinLetter d = false) (h : c.toUpper = d) :
    c = d := by
  have hcodes : ∀ n : Fin 26, isLatinLetter (Char.ofNat (97 + n.val)).toUpper = true := by
    decide +kernel
  by_cases hc : c.val ≥ 'a'.val ∧ c.val ≤ 'z'.val
  · have hlow : 97 ≤ c.toNat := UInt32.le_iff_toNat_le.mp hc.1
    have hhigh : c.toNat ≤ 122 := UInt32.le_iff_toNat_le.mp hc.2
    have hupper := of_forall_letter (p := fun d ↦ isLatinLetter d.toUpper = true) hcodes hlow
      (by omega)
    exact absurd hupper (by simp [h, hletter])
  · have hsame : c.toUpper = c := dif_neg hc
    rwa [hsame] at h

theorem notMem_capitalized (hletter : isLatinLetter d = false) {t : Text} (h : d ∉ t) :
    d ∉ capitalized t := by
  cases t with
  | nil => exact h
  | cons c cs =>
    obtain ⟨hc, hcs⟩ := not_or.mp (List.mem_cons.not.mp h)
    rw [capitalized, List.mem_cons, not_or]
    exact ⟨fun heq ↦ hc (eq_of_toUpper_eq hletter heq.symm).symm, hcs⟩

/-- The name of the function of a page is made of basic letters, digits and underscores. -/
theorem notMem_pageFunction (hletter : isLatinLetter d = false) (hdigit : isLatinDigit d = false)
    (hmark : d ≠ '_') (name : Text) : d ∉ pageFunction name := by
  have hletters : d ∉ name.filter fun c ↦ isLatinLetter c || isLatinDigit c := fun hmem ↦
    absurd (List.mem_filter.mp hmem).2 (by simp [hletter, hdigit])
  have hword : ∀ w : Text, (∀ c ∈ w, isLatinLetter c = true) → d ∉ w := fun w hw hmem ↦
    absurd (hw d hmem) (by simp [hletter])
  have hcomponent : d ∉ ("Component" : Text) := hword _ (by decide)
  rw [pageFunction, List.mem_append, not_or]
  refine ⟨notMem_capitalized hletter ?_, hword _ (by decide)⟩
  split_ifs
  · exact List.not_mem_cons_of_ne_of_not_mem hmark hcomponent
  · exact hcomponent
  · exact List.not_mem_cons_of_ne_of_not_mem hmark hletters
  · exact hletters

section Program

variable {c : Component} (hc : c.WellNamed)

include hc

theorem closesAny_variableLines (hown : ¬ ClosesAny (c.vars.map Variable.expression)) :
    ClosesAny (variableLines c) ↔
      ∃ v ∈ c.vars, ClosesScript (dereference c.variableNames (valueOf v)) := by
  rw [variableLines, closesAny_section (by decide) fun h ↦ by rw [h]; rfl, closesAny_map]
  refine exists_congr fun v ↦ and_congr_right fun hv ↦ ?_
  rw [closesScript_line]
  exact closesScript_variableDeclaration (hc.vars v hv) fun h ↦
    hown (closesAny_map.mpr ⟨v, hv, h⟩)

theorem not_closesAny_scopeLines : ¬ ClosesAny (scopeLines c) := by
  have hfeed : ¬ ClosesAny [[]] := by decide
  rw [scopeLines, closesAny_cons, or_iff_left hfeed]
  split_ifs
  · decide
  · have hnames : ¬ ClosesScript (Text.join ", " c.variableNames) := by
      rw [closesScript_join (by decide)]
      rintro ⟨n, hn, hcloses⟩
      exact not_closesScript_of_notMem (notMem_of_isWord (hc.variableNames n hn).2) hcloses
    rwa [closesScript_line, closesScript_append_mark (by decide),
      closesScript_append_of_notMem (by decide)]

theorem closesAny_functionLines
    (hown : ¬ ClosesAny (c.functions.map Function.parameters)) :
    ClosesAny (functionLines c) ↔
      ∃ f ∈ c.functions, ClosesScript (dereference c.variableNames f.body) := by
  rw [functionLines, closesAny_section (by decide) fun h ↦ by rw [h]; rfl, closesAny_flatMap]
  refine exists_congr fun f ↦ and_congr_right fun hf ↦ ?_
  exact closesAny_functionDeclaration (hc.functions f hf) fun h ↦
    hown (closesAny_map.mpr ⟨f, hf, h⟩)

end Program

end Script

/-! ## Own script -/

namespace Component

open Script

/-- The script that a component has of its own: the expressions of its variables, and the parameters
and bodies of its functions. -/
def ownScript (c : Component) : List Text :=
  c.vars.map Variable.expression ++ c.functions.map Function.parameters ++
    c.functions.map Function.body

/-- What the program has of it with its references replaced. -/
def dereferenced (c : Component) : List Text :=
  c.vars.map (fun v ↦ dereference c.variableNames (valueOf v)) ++
    c.functions.map fun f ↦ dereference c.variableNames f.body

/-- Where replacing references makes a closing tag, a variable begins like one. -/
theorem exists_beginsScript_of_dereferenced (hc : c.WellNamed) (hown : ¬ ClosesAny c.ownScript)
    (h : ClosesAny c.dereferenced) : ∃ v ∈ c.vars, BeginsScript v.name := by
  simp only [ownScript, closesAny_append, closesAny_map, not_or, not_exists, not_and] at hown
  obtain ⟨⟨hvars, -⟩, hbodies⟩ := hown
  have hname : (∃ n ∈ c.variableNames, BeginsScript n) → ∃ v ∈ c.vars, BeginsScript v.name := by
    rintro ⟨n, hn, hbegins⟩
    obtain ⟨v, hv, rfl⟩ := List.mem_map.mp (mem_distinct.mp hn)
    exact ⟨v, hv, hbegins⟩
  simp only [dereferenced, closesAny_append, closesAny_map] at h
  apply hname
  rcases h with ⟨v, hv, hcloses⟩ | ⟨f, hf, hcloses⟩
  · refine (closesScript_of_dereference hcloses).resolve_left ?_
    exact not_closesScript_valueOf (hc.vars v hv) (hvars v hv)
  · exact (closesScript_of_dereference hcloses).resolve_left (hbodies f hf)

theorem closesScript_program (hc : c.WellNamed) (hown : ¬ ClosesAny c.ownScript)
    {definitions : List Definition} (hdefinitions : ∀ d ∈ definitions, d.WellNamed)
    {lowered : Lowered} (hevents : ∀ b ∈ lowered.events, b.WellNamed)
    (hrows : ∀ row ∈ lowered.conditions, ∀ tree ∈ row.2, ∀ n ∈ tree.variables, Text.IsName n)
    (withLibrary : Bool) :
    ClosesScript (program c definitions withLibrary lowered) ↔
      ClosesScript (registeredRoute c) ∨
        (∃ row ∈ lowered.conditions, ClosesAny (Condition.rowTexts row)) ∨
        ClosesAny c.dereferenced := by
  rw [ownScript, closesAny_append, closesAny_append, not_or, not_or] at hown
  obtain ⟨⟨hvars, hparameters⟩, -⟩ := hown
  have hlibrary : ¬ ClosesAny (if withLibrary then libraryLines ++ [[]] else []) := by
    cases withLibrary with
    | false => exact closesAny_nil
    | true =>
      rw [if_pos rfl, closesAny_append, or_iff_right not_closesAny_libraryLines]
      decide
  have hname : '<' ∉ c.name := notMem_of_isWord hc.name.2
  have hfunction : '<' ∉ pageFunction c.name :=
    notMem_pageFunction (by decide) (by decide) (by decide) c.name
  have hhead : ¬ ClosesAny ["// Page component: " ++ c.name,
      "function " ++ pageFunction c.name ++ "() \x7b"] := by
    simp [not_closesScript_of_notMem, hname, hfunction]
  have hend : ¬ ClosesAny [("\x7d" : Text), []] := by decide
  have hstart : ¬ ClosesAny (startLines c) := by
    simp [startLines, not_closesScript_of_notMem, hfunction]
  -- The program is told line by line; the sections that add nothing drop out.
  rw [program, closesScript_unlines]
  change ClosesAny _ ↔ _
  simp only [pageLines, closesAny_append, hlibrary, hhead, hend, hstart,
    closesAny_metadataLines, closesAny_variableLines hc hvars, not_closesAny_scopeLines hc,
    closesAny_functionLines hc hparameters, not_closesAny_componentLines hdefinitions,
    closesAny_updateLines hc hrows, not_closesAny_eventLines c hevents, false_or, or_false,
    dereferenced, closesAny_map]
  exact or_congr_right or_comm

/-! ## Generation -/

section Generation

variable {c : Component} {mode : ScriptMode} {definitions : List Definition} {withLibrary : Bool}
  {generated : Generated}

theorem exists_of_generate (h : (c.generate mode definitions withLibrary).result = .ok generated) :
    ∃ conditions, (Lowering.tableFrom c [] c.blocks).conditions = .ok conditions ∧
      generated.script = program c definitions withLibrary generated.template ∧
      generated.template =
        { html := Markup.lower c
          events := Markup.eventBindings (Markup.beforeEvents c)
          conditions
          bindings := Markup.bindings (Markup.beforeBindings c) } := by
  rw [generate] at h
  dsimp only at h
  split at h
  · cases h
  · next lowered hlowered =>
    obtain rfl := Except.ok.inj h
    obtain ⟨table, htable, rfl⟩ := exists_of_map_eq_ok hlowered
    exact ⟨table, htable, rfl, rfl⟩

theorem generate_eq_ok (h : (c.generate mode definitions withLibrary).result = .ok generated) :
    generated.script = program c definitions withLibrary generated.template ∧
      generated.template.events = Markup.eventBindings (Markup.beforeEvents c) ∧
      (Lowering.tableFrom c [] c.blocks).conditions = .ok generated.template.conditions := by
  obtain ⟨conditions, htable, hscript, htemplate⟩ := exists_of_generate h
  refine ⟨hscript, ?_, ?_⟩
  · rw [htemplate]
  · rw [htemplate, htable]

/-- **What can close the script of a program.** The metadata and the imports cannot, nor can the
names of a source. For a source whose own script has no closing tag the program has one exactly when
the route has one, or a condition of the template or a text that it compares with, or the script
with its references replaced; and this last takes a variable whose name begins like the tag. -/
theorem closesScript_generate_iff {E : Type} {file : Text} {locator : Source.Locator E}
    {parts : FrontMatter.Extracted} (hread : (read file locator parts).component = .ok c)
    (hown : ¬ ClosesAny c.ownScript) (hknows : c.Knows definitions)
    (h : (c.generate mode definitions withLibrary).result = .ok generated) :
    (ClosesScript generated.script ↔
      ClosesScript (registeredRoute c) ∨
        (∃ row ∈ generated.template.conditions, ClosesAny (Condition.rowTexts row)) ∨
        ClosesAny c.dereferenced) ∧
      (ClosesAny c.dereferenced → ∃ v ∈ c.vars, BeginsScript v.name) := by
  have hc : c.WellNamed := wellNamed_of_read hread
  obtain ⟨hscript, hevents, htable⟩ := generate_eq_ok h
  refine ⟨?_, exists_beginsScript_of_dereferenced hc hown⟩
  rw [hscript]
  apply closesScript_program hc hown (hc.definitions hknows)
  · intro b hb
    rw [hevents] at hb
    exact Markup.wellNamed_of_mem_eventBindings hb
  · intro row hrow tree htree n hn
    have hparse := Lowering.parse_of_mem_table htable hrow htree
    exact hc.variableNames n (Condition.known_of_parse hparse n hn)

end Generation

/-- A source with a closing tag in its metadata, and a comparison in its template. -/
def quotingSource : Text :=
  "---\ntitle: </script>\n---\n$n! = 1\n<template>\n\x7b#if $n < 2\x7dx\x7b/if\x7d\n</template>"

/-- The program of such a source has no closing tag. -/
theorem quoting_page_stays_open :
    ∃ c generated,
      (read "page.mtm" (Source.noLookup : Source.Locator Empty)
        (FrontMatter.extract quotingSource)).component = .ok c ∧
      ¬ ClosesAny c.ownScript ∧ ClosesAny (c.fields.map Prod.snd) ∧
      (c.generate .inline c.definitions true).result = .ok generated ∧
      ¬ ClosesScript generated.script := by
  have hread : (read "page.mtm" (Source.noLookup : Source.Locator Empty)
      (FrontMatter.extract quotingSource)).component =
        .ok (ofSource "page.mtm" quotingSource) := rfl
  have hown : ¬ ClosesAny (ofSource "page.mtm" quotingSource).ownScript := by decide +kernel
  have hfields : ClosesAny ((ofSource "page.mtm" quotingSource).fields.map Prod.snd) := by
    decide +kernel
  have hroute : ¬ ClosesScript (registeredRoute (ofSource "page.mtm" quotingSource)) := by
    decide +kernel
  have hnames : ¬ ∃ v ∈ (ofSource "page.mtm" quotingSource).vars, BeginsScript v.name := by
    decide +kernel
  have htable : (Lowering.tableFrom (ofSource "page.mtm" quotingSource) []
      (ofSource "page.mtm" quotingSource).blocks).conditions =
      .ok [("$n < 2", some (.compare .below (.var "n") (.literal (.whole 2))))] := by
    decide +kernel
  generalize ofSource "page.mtm" quotingSource = c at *
  obtain ⟨⟨generated, hgenerated, hconditions⟩, -⟩ :=
    (c.generate_eq .inline c.definitions true).2 _ htable
  obtain ⟨hiff, hbegins⟩ := closesScript_generate_iff hread hown (.inl rfl) hgenerated
  refine ⟨c, generated, hread, hown, hfields, hgenerated, ?_⟩
  rw [hiff, hconditions]
  rintro (hcloses | hcloses | hcloses)
  · exact hroute hcloses
  · exact absurd hcloses (by decide)
  · exact hnames (hbegins hcloses)

/-- What comes of generating the program of a source, without the library. -/
def scriptOf (source : Text) : Except NumeralTooLong Generated :=
  ((ofSource "page.mtm" source).generate .inline (ofSource "page.mtm" source).definitions
    false).result

/-- Whether a source whose own script has no closing tag has a program with one. -/
def ClosesItself (source : Text) : Prop :=
  ¬ ClosesAny (ofSource "page.mtm" source).ownScript ∧
    ∃ generated, scriptOf source = .ok generated ∧ ClosesScript generated.script

instance (source : Text) : Decidable (ClosesItself source) :=
  haveI : Decidable (∃ generated, scriptOf source = .ok generated ∧
      ClosesScript generated.script) :=
    match h : scriptOf source with
    | .error _ => .isFalse fun ⟨_, hgenerated, _⟩ ↦ nomatch hgenerated
    | .ok generated => decidable_of_iff (ClosesScript generated.script) (by simp)
  inferInstanceAs (Decidable (_ ∧ _))

/-- A route closes the script, and so does a condition, and so does a variable behind the signs of
the tag. -/
theorem programs_close_their_script :
    ClosesItself "---\nroute: /</script>\n---" ∧
      ClosesItself "<template>\n\x7b#if '</script>'\x7dx\x7b/if\x7d\n</template>" ∧
      ClosesItself "$script! = 1\n$n = 2 </$script" := by
  decide +kernel

end Component

end PageCompiler
