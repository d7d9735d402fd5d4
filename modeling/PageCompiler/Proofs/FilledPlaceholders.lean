import PageCompiler.Proofs.CheckedTemplates
import PageCompiler.Proofs.LoweredTrees

/-!
# Metadata in templates

The value of a metadata key stands in the lowered template as text, escaped, and nothing else comes
of it: a template with a placeholder is lowered like the same template with a word in its place
(`Markup.Tree.value_stands_as_text`). The markup around the places is the same, and so are handlers,
conditions and bound variables.

## What is asked of the value

Metadata is filled in before the other passes run, and escaping leaves braces and dollar signs as
they are. So no mark of a variable or of a block may begin in the value: one that does is read like
the rest of the template (`Markup.value_read_as_variable`). There is one thing more to ask, if the
template is well written with the word in its place: a bound variable right behind an equals sign is
a handler, so a value that ends with one, or is empty and lets one through, may not stand right
before a bound variable.
-/

namespace PageCompiler

namespace Markup

variable {c : Component} {T : Tree} {key word value : Text}

/-! ## A word for a placeholder -/

def Leaf.replace (key word : Text) (l : Leaf) : Leaf := if l = placeholder key then text word else l

/-- A tree with a word in the places of a key. -/
def Tree.replace (key word : Text) (T : Tree) : Tree := T.map (Leaf.replace key word) id

/-- The markup that a tree becomes, with the places of a key left open. -/
def Tree.outline (c : Component) (key : Text) : Tree → List (Piece Unit)
  | nil => []
  | leaf l rest =>
    (if l = .placeholder key then [.found ()] else (l.html c).map .plain) ++ rest.outline c key
  | frame f body rest =>
    (f.openingHtml c).map .plain ++ (body.outline c key ++ (f.closingHtml c).map .plain) ++
      rest.outline c key

/-- Writes a text in all open places. -/
def fillIn (t : Text) (outline : List (Piece Unit)) : Text :=
  outline.flatMap (Piece.write fun _ ↦ t)

theorem fillIn_append (t : Text) (outline outline' : List (Piece Unit)) :
    fillIn t (outline ++ outline') = fillIn t outline ++ fillIn t outline' :=
  List.flatMap_append

theorem fillIn_map_plain (t u : Text) : fillIn t (u.map .plain) = u :=
  Text.flatMap_write_map_plain _ u

theorem Tree.places_outline (c : Component) (key : Text) (T : Tree) :
    ((T.outline c key).filterMap Piece.value?).length = T.leaves.count (.placeholder key) := by
  induction T with
  | nil => rfl
  | leaf l rest ih =>
    rw [outline, leaves, List.filterMap_append, List.length_append, ih, List.count_cons]
    by_cases hl : l = .placeholder key
    · subst hl
      simp [Piece.value?, Nat.add_comm]
    · rw [if_neg hl, Text.filterMap_value?_map_plain]
      simp [hl]
  | frame f body rest ihBody ihRest =>
    rw [outline, leaves, List.count_append, ← ihBody, ← ihRest]
    simp only [List.filterMap_append, Text.filterMap_value?_map_plain, List.append_nil,
      List.nil_append, List.length_append]

/-- What stands for a placeholder is written in the places of the key. -/
theorem Tree.html_map_eq_fillIn {onLeaf : Leaf → Leaf} {t : Text}
    (hkey : (onLeaf (.placeholder key)).html c = t)
    (hkept : ∀ l, l ≠ .placeholder key → (onLeaf l).html c = l.html c) (T : Tree) :
    (T.map onLeaf id).html c = fillIn t (T.outline c key) := by
  induction T with
  | nil => rfl
  | leaf l rest ih =>
    rw [map, html, outline, fillIn_append, ih]
    congr 1
    by_cases hl : l = .placeholder key
    · rw [if_pos hl, hl, hkey]
      exact (List.append_nil t).symm
    · rw [if_neg hl, hkept l hl, fillIn_map_plain]
  | frame f body rest ihBody ihRest =>
    rw [map, html, outline, ihBody, ihRest]
    simp only [fillIn_append, fillIn_map_plain, id]

theorem Tree.html_eq_fillIn (c : Component) (key : Text) (T : Tree) :
    T.html c = fillIn (writePlaceholder c.fields key) (T.outline c key) := by
  have hsame : T.map id id = T := Tree.map_eq_self (fun _ _ ↦ rfl) fun _ _ ↦ rfl
  nth_rewrite 1 [← hsame]
  exact Tree.html_map_eq_fillIn rfl (fun _ _ ↦ rfl) T

theorem Leaf.replace_of_ne {l : Leaf} (h : l ≠ placeholder key) : l.replace key word = l :=
  if_neg h

theorem fillPlaceholders_of_isName (fields : FrontMatter) (h : Text.IsName word) :
    fillPlaceholders fields word = word :=
  (fills_of_notMem (h.notMem_of_not_isWord (by decide))).fillPlaceholders_eq

theorem Tree.html_replace (hword : Text.IsName word) (T : Tree) :
    (T.replace key word).html c = fillIn word (T.outline c key) := by
  refine Tree.html_map_eq_fillIn ?_ (fun l hl ↦ by rw [Leaf.replace_of_ne hl]) T
  rw [Leaf.replace, if_pos rfl]
  exact fillPlaceholders_of_isName c.fields hword

theorem Tree.mem_frames_replace {q : Frame × Tree} (h : q ∈ T.frames) :
    (q.1, q.2.replace key word) ∈ (T.replace key word).frames :=
  mem_frames_map h

/-- A word in the place of a key changes neither handlers, nor bound variables, nor conditions. -/
theorem Tree.marks_replace (key word : Text) (T : Tree) :
    (T.replace key word).leaves.filterMap Leaf.event? = T.leaves.filterMap Leaf.event? ∧
      (T.replace key word).leaves.filterMap Leaf.binding? = T.leaves.filterMap Leaf.binding? ∧
      (T.replace key word).conditions = T.conditions := by
  have hleaf : ∀ l : Leaf, (l.replace key word).event? = l.event? ∧
      (l.replace key word).binding? = l.binding? := by
    intro l
    by_cases hl : l = .placeholder key
    · subst hl
      rw [Leaf.replace, if_pos rfl]
      exact ⟨rfl, rfl⟩
    · rw [Leaf.replace_of_ne hl]
      exact ⟨rfl, rfl⟩
  rw [replace, leaves_map, List.filterMap_map, List.filterMap_map, conditions, frames_map,
    List.filterMap_map]
  exact ⟨List.filterMap_congr fun l _ ↦ (hleaf l).1,
    List.filterMap_congr fun l _ ↦ (hleaf l).2, rfl⟩

/-! ## Values in the place of words -/

theorem Tree.beginsBound_text {t : Text} {rest : Tree} :
    (Tree.leaf (.text t) rest).beginsBound = false ↔ (t = [] → rest.beginsBound = false) := by
  cases t with
  | nil => exact ⟨fun h _ ↦ h, fun h ↦ h rfl⟩
  | cons c t => exact ⟨fun _ h ↦ absurd h (List.cons_ne_nil c t), fun _ ↦ rfl⟩

/-- If no placeholder with an empty value is right in front of a bound variable, none comes to the
beginning of a tree by a value in the place of a word. -/
theorem Tree.beginsBound_fill_of_replace {fields : FrontMatter}
    (hfollowed : writePlaceholder fields key = [] →
      ∀ q ∈ T.followed, q.1 = .placeholder key → (q.2.fill fields).beginsBound = false)
    (h : ((T.replace key word).fill fields).beginsBound = false) :
    (T.fill fields).beginsBound = false := by
  induction T with
  | nil => rfl
  | frame f body rest => rfl
  | leaf l rest ih =>
    have hrest : writePlaceholder fields key = [] → ∀ q ∈ rest.followed,
        q.1 = .placeholder key → (q.2.fill fields).beginsBound = false :=
      fun hempty ↦ (List.forall_mem_cons.mp (hfollowed hempty)).2
    by_cases hkey : l = .placeholder key
    · subst hkey
      exact beginsBound_text.mpr fun hempty ↦ hfollowed hempty _ List.mem_cons_self rfl
    · rw [replace, map, Leaf.replace_of_ne hkey] at h
      cases l with
      | text t => exact beginsBound_text.mpr fun hempty ↦ ih hrest (beginsBound_text.mp h hempty)
      | placeholder other =>
        exact beginsBound_text.mpr fun hempty ↦ ih hrest (beginsBound_text.mp h hempty)
      | binding name => cases h
      | use name attributes => rfl
      | event front b => rfl

section OfReplace

variable (hfollowed :
  writePlaceholder c.fields key = [] ∨ ['='] <:+ writePlaceholder c.fields key →
    ∀ q ∈ T.followed, q.1 = .placeholder key → (q.2.fill c.fields).beginsBound = false)

include hfollowed

theorem Tree.Sound.of_replace {names : List Text}
    (hvalue : Inert names (writePlaceholder c.fields key))
    (h : ((T.replace key word).fill c.fields).Sound names names) :
    (T.fill c.fields).Sound names names where
  leaf := by
    rw [Tree.fill, Tree.leaves_map]
    refine List.forall_mem_map.mpr fun l hl ↦ ?_
    by_cases hkey : l = .placeholder key
    · subst hkey
      exact hvalue
    · have hsound := h.leaf _ (Tree.mem_leaves_map (Tree.mem_leaves_map hl))
      rwa [Leaf.replace_of_ne hkey] at hsound
  frame := by
    rw [Tree.fill, Tree.frames_map]
    refine List.forall_mem_map.mpr fun q hq ↦ ?_
    have hsound := h.frame _ (Tree.mem_frames_map (Tree.mem_frames_replace hq))
    exact hsound
  nested := by
    rw [Tree.fill, Tree.frames_map]
    refine List.forall_mem_map.mpr fun q hq mark hmark ↦ ?_
    rw [Tree.frames_map]
    refine List.forall_mem_map.mpr fun r hr ↦ ?_
    have hnested := h.nested _ (Tree.mem_frames_map (Tree.mem_frames_replace hq)) mark hmark _
      (Tree.mem_frames_map (Tree.mem_frames_replace hr))
    exact hnested
  apart := by
    rw [Tree.fill, Tree.followed_map]
    refine List.forall_mem_map.mpr fun q hq hends ↦ ?_
    -- The value may end with an equals sign though the word does not.
    by_cases hkey : q.1 = .placeholder key
    · rw [hkey] at hends
      exact hfollowed (.inr hends) q hq hkey
    · have hbegins := h.apart _ (Tree.mem_followed_map (Tree.mem_followed_map hq))
      rw [Leaf.replace_of_ne hkey] at hbegins
      exact Tree.beginsBound_fill_of_replace
        (fun hempty r hr ↦ hfollowed (.inl hempty) r (Tree.followed_subset_of_mem hq hr))
        (hbegins hends)

/-- **A value can take the place of a word.** -/
theorem Tree.WellWritten.of_replace (hkey : Text.IsName key)
    (hvalue : Inert (tagNames c) (writePlaceholder c.fields key))
    (h : (T.replace key word).WellWritten c) : T.WellWritten c where
  names := h.names
  closed l hl := by
    by_cases heq : l = .placeholder key
    · subst heq
      exact hkey
    · have hclosed := h.closed _ (Tree.mem_leaves_map hl)
      rwa [Leaf.replace_of_ne heq] at hclosed
  unlowered q hq := h.unlowered (q.1, q.2.replace key word) (Tree.mem_frames_replace hq)
  sound := h.sound.of_replace hfollowed hvalue

end OfReplace

end Markup

/-! ## Two templates of one component -/

/-- A component with another template. -/
def Component.withMarkup (c : Component) (line : Nat) (markup : Text) : Component :=
  { c with template := some ⟨line, markup⟩ }

namespace Markup

variable {c : Component} {T : Tree} {key word value : Text}

theorem Tree.html_withMarkup (c : Component) (line : Nat) (markup : Text) (T : Tree) :
    T.html (c.withMarkup line markup) = T.html c := by
  induction T with
  | nil => rfl
  | leaf l rest ih =>
    rw [html, html, ih]
    cases l <;> rfl
  | frame f body rest ihBody ihRest =>
    rw [html, html, ihBody, ihRest]
    cases f <;> rfl

theorem Tree.WellWritten.withMarkup (h : T.WellWritten c) (line : Nat) (markup : Text) :
    T.WellWritten (c.withMarkup line markup) :=
  ⟨h.names, h.closed, h.unlowered, h.sound⟩

end Markup

theorem Lowering.tableFrom_withMarkup (c : Component) (line : Nat) (markup : Text)
    (known : OrderedMap (Option Condition.Tree)) (blocks : List Markup.ConditionalBlock) :
    tableFrom (c.withMarkup line markup) known blocks = tableFrom c known blocks := by
  induction blocks generalizing known with
  | nil => rfl
  | cons b rest ih =>
    rw [tableFrom, tableFrom]
    simp only [ih]
    rfl

/-- What came of lowering a template, with other markup. -/
def Lowering.withHtml (lowering : Lowering) (html : Text) : Lowering :=
  { lowering with result := lowering.result.map ({ · with html }) }

namespace Markup

variable {c : Component} {T : Tree} {key word value : Text} {line : Nat}

/-- **A value stands as text in the places of its key.** Around the places a template is lowered as
if each of them was taken by a word: the markup is the same, and all else that is known of it. -/
theorem Tree.value_stands_as_text (hmarkup : c.markup = T.source) (hkey : Text.IsName key)
    (hvalue : OrderedMap.get? c.fields key = some value)
    (hmarks : Text.Nowhere BeginsMark (Text.escape value))
    (hfollowed : Text.escape value = [] ∨ ['='] <:+ Text.escape value →
      ∀ q ∈ T.followed, q.1 = .placeholder key → (q.2.fill c.fields).beginsBound = false)
    (hword : Text.IsName word) (h : (T.replace key word).WellWritten c) :
    ∃ outline : List (Piece Unit),
      (outline.filterMap Piece.value?).length = T.leaves.count (.placeholder key) ∧
      lower (c.withMarkup line (T.replace key word).source) = fillIn word outline ∧
      lower c = fillIn (Text.escape value) outline ∧
      c.lowerTemplate =
        (c.withMarkup line (T.replace key word).source).lowerTemplate.withHtml (lower c) := by
  have hwritten : writePlaceholder c.fields key = Text.escape value := by
    rw [writePlaceholder, hvalue]
  have hinert : Inert (tagNames c) (writePlaceholder c.fields key) := by
    rw [hwritten]
    exact ⟨untagged_of_notMem (Text.lt_notMem_escape value), hmarks⟩
  have hT := h.of_replace (hwritten.symm ▸ hfollowed) hkey hinert
  have h' := h.withMarkup line (T.replace key word).source
  obtain ⟨hevents, hbindings, hconditions⟩ := T.marks_replace key word
  refine ⟨T.outline c key, T.places_outline c key, ?_, ?_, ?_⟩
  · rw [h'.lower_eq_html rfl, html_withMarkup, html_replace hword]
  · rw [hT.lower_eq_html hmarkup, html_eq_fillIn c key, hwritten]
  · rw [hT.lowerTemplate_eq hmarkup, h'.lowerTemplate_eq rfl, hT.lower_eq_html hmarkup,
      Lowering.tableFrom_withMarkup, hevents, hbindings, hconditions]
    generalize Lowering.tableFrom c [] (T.conditions.map (ConditionalBlock.mk · [])) = table
    obtain ⟨conditions, notes, warnings⟩ := table
    cases conditions <;> rfl

/-- A template that shows its title twice, once under a condition and right before a number. -/
def titleTree : Tree :=
  .leaf (.text "<h1") (.leaf (.event ' ' ⟨"click", "go"⟩) (.leaf (.text ">")
    (.leaf (.placeholder "title") (.leaf (.text "</h1>") (.frame (.block ' ' "$n")
      (.leaf (.placeholder "title") (.leaf (.binding "n") .nil)) .nil)))))

/-- A component with a title that has to be escaped. -/
def titlePage : Component :=
  { file := "p.mtm"
    fields := [("title", "<b> \x7b=\x7d \"$n\"")]
    template := some ⟨4, titleTree.source⟩ }

/-- Such a title is shown as it is. -/
theorem titlePage_shows_its_title :
    titlePage.markup =
      ("<h1 click=\x7b$go\x7d>\x7btitle\x7d</h1>" ++
        "\x7b#if $n\x7d\x7btitle\x7d\x7b$n\x7d\x7b/if\x7d" : Text) ∧
    ∃ outline : List (Piece Unit),
      (outline.filterMap Piece.value?).length = 2 ∧
      lower (titlePage.withMarkup 4 (titleTree.replace "title" "Word").source) =
        fillIn "Word" outline ∧
      lower titlePage = fillIn "&lt;b&gt; \x7b=\x7d &quot;$n&quot;" outline ∧
      titlePage.lowerTemplate = (titlePage.withMarkup 4
        (titleTree.replace "title" "Word").source).lowerTemplate.withHtml (lower titlePage) := by
  have hvalue : OrderedMap.get? titlePage.fields "title" =
      some ("<b> \x7b=\x7d \"$n\"" : Text) := by decide +kernel
  have hends : ¬(Text.escape "<b> \x7b=\x7d \"$n\"" = [] ∨
      ['='] <:+ Text.escape "<b> \x7b=\x7d \"$n\"") := by decide +kernel
  have hwell : (titleTree.replace "title" "Word").WellWritten titlePage := by decide +kernel
  have hplaces : titleTree.leaves.count (.placeholder "title") = 2 := by decide +kernel
  have hescape : Text.escape "<b> \x7b=\x7d \"$n\"" =
      ("&lt;b&gt; \x7b=\x7d &quot;$n&quot;" : Text) := by decide +kernel
  rw [← hplaces, ← hescape]
  exact ⟨by decide +kernel, Tree.value_stands_as_text rfl (by decide +kernel) hvalue
    (by decide +kernel) (fun h ↦ absurd h hends) (by decide +kernel) hwell⟩

/-- **A value can be read as a variable.** Braces are not escaped, and the variables are looked for
when the metadata has been filled in. -/
theorem value_read_as_variable :
    let c := Component.ofSource "p.mtm"
      "---\ntitle: \x7b$count\x7d\n---\n<template>\x7btitle\x7d</template>"
    OrderedMap.get? c.fields "title" = some ("\x7b$count\x7d" : Text) ∧
      c.markup = ("\x7btitle\x7d" : Text) ∧ Text.escape "\x7b$count\x7d" = "\x7b$count\x7d" ∧
      lower c = ("<span data-bind=\"$count\"></span>" : Text) ∧
      bindings (beforeBindings c) = ["count"] := by
  decide +kernel

end Markup

end PageCompiler
