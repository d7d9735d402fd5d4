import PageCompiler.Proofs.CheckedTemplates
import PageCompiler.Proofs.LoweredTrees

/-!
# Mounted components

Each tag of a component becomes an element that the component is mounted on. The elements stand
where the tags stood and hold what they held, since the template is lowered part by part
(`Markup.Tree.html`). Here this is seen from the result: no tag of a component is left in it, and
whoever looks for elements with mounted components finds one for each tag, in order and with the
framework of the import (`Markup.Tree.components_are_mounted`).

## Elements that only look like it

A template can spell out such an element itself, so the mark that all of them begin with must not
be in the template. That none comes about when the parts are put together is shown along the tree:
where an end of the mark stands at some place in the result, it stands at the same place in the
template (`Markup.Shows`), because what is written for a part begins with a bracket, or with
`data-click` or `data-event`.

An element ends at the first closing tag of its name, so a component cannot hold itself, though the
tags may be matched well (`Markup.inner_component_left`).
-/

namespace PageCompiler

namespace Markup

/-! ## Reading mounted components -/

/-- A component as it stands in the markup. -/
structure Mount where
  name : Text
  framework : Text
  deriving DecidableEq, Repr

/-- How each element begins that a component is mounted on. -/
def mountMark : Text := "<div data-component=\""

def readMount (t : Text) : Option (Mount × Text) := do
  let (name, rest) ← Text.upTo? '"' (← Text.after? mountMark t)
  let (framework, rest) ← Text.upTo? '"' (← Text.after? " data-framework=\"" rest)
  let rest ← Text.after? " data-type=\"component\"" rest
  some (⟨name, framework⟩, rest)

theorem isPrefix_of_readMount {s : Text} (h : readMount s ≠ none) : mountMark <+: s := by
  cases hmark : Text.after? mountMark s with
  | none =>
    refine absurd ?_ h
    rw [readMount, hmark]
    rfl
  | some rest =>
    rw [Text.after?_eq_some_iff.mp hmark]
    exact List.prefix_append _ _

/-- An import as it stands in the markup. -/
def mountOf (i : Import) : Mount := ⟨i.name, i.framework.label⟩

theorem readMount_mountOpening {i : Import} (h : Text.IsName i.name) (rest : Text) :
    readMount (mountOpening i ++ rest) = some (mountOf i, rest) := by
  have hassoc : ∀ a b d u v : Text, a ++ u ++ ('"' :: b) ++ v ++ ('"' :: d) ++ rest =
      a ++ (u ++ '"' :: (b ++ (v ++ '"' :: (d ++ rest)))) := by
    intro a b d u v
    simp only [List.append_assoc, List.cons_append]
  have heq : mountOpening i ++ rest = mountMark ++ (i.name ++ '"' :: (" data-framework=\"" ++
      (i.framework.label ++ '"' :: (" data-type=\"component\"" ++ rest)))) := hassoc _ _ _ _ _
  have hname : '"' ∉ i.name := h.notMem_of_not_isWord (by decide)
  have hlabel : '"' ∉ i.framework.label := notMem_label (by decide) i.framework
  simp only [heq, readMount, Text.after?_append, Text.upTo?_append_cons hname,
    Text.upTo?_append_cons hlabel, Option.bind_eq_bind, Option.bind_some]
  rfl

/-! ## Parts of the markup without mounted components -/

theorem findAll_readMount_of_nowhere {t : Text} (h : Text.Nowhere (mountMark <+: ·) t)
    (rest : Text) : Text.findAll readMount (t ++ rest) = Text.findAll readMount rest :=
  Text.findAll_append_of_none fun _ _ heq hne ↦
    not_ne_iff.mp fun hread ↦ h.not_of_suffix heq hne rest (isPrefix_of_readMount hread)

theorem nowhere_mountMark_of_notMem {t : Text} (h : '<' ∉ t) : Text.Nowhere (mountMark <+: ·) t :=
  Text.nowhere_of_notMem (fun _ s hc ↦ Text.not_isPrefix_of_ne hc _ s) h

theorem lt_notMem_name_of_readAttribute {t rest : Text} {a : Attribute}
    (h : readAttribute t = some (a, rest)) : '<' ∉ a.name := by
  cases t with
  | nil => cases h
  | cons c cs =>
    rw [readAttribute] at h
    by_cases hc : beginsAttribute c = true
    · have hname : a.name = c :: cs.takeWhile inAttribute := by
        rw [if_pos hc] at h
        dsimp only at h
        split at h <;> exact congrArg (·.1.name) (Option.some.inj h).symm
      rw [hname]
      intro hmem
      rcases List.mem_cons.mp hmem with rfl | hmem
      · exact absurd hc (by decide)
      · exact absurd (List.mem_takeWhile_imp hmem) (by decide)
    · rw [if_neg hc] at h
      cases h

theorem lt_notMem_componentAttributes (attributes : Text) :
    '<' ∉ componentAttributes attributes := by
  intro hmem
  obtain ⟨a, ha, hmem⟩ := List.mem_flatMap.mp hmem
  obtain ⟨u, rest, hread⟩ := Text.exists_of_mem_findAll ha
  have hname := lt_notMem_name_of_readAttribute hread
  have hvalue := Text.lt_notMem_escape a.value.content
  have hkind : '<' ∉ a.value.kind := by
    cases a.value with
    | bare => decide
    | quoted t => exact show '<' ∉ ("string" : Text) by decide
    | braced t =>
      have hboth : ∀ b : Bool, '<' ∉ (if b then ("variable" : Text) else "literal") := by decide
      exact hboth _
  have hparts : ∀ a₁ a₂ a₃ a₄ a₅ name value kind : Text, '<' ∉ a₁ → '<' ∉ a₂ → '<' ∉ a₃ → '<' ∉ a₄ →
      '<' ∉ a₅ → '<' ∉ name → '<' ∉ value → '<' ∉ kind →
      '<' ∉ a₁ ++ name ++ a₂ ++ value ++ a₃ ++ name ++ a₄ ++ kind ++ a₅ := by
    intros
    simp [*]
  exact hparts " data-prop-" "=\"" "\" data-prop-" "-type=\"" "\"" _ _ _ (by decide) (by decide)
    (by decide) (by decide) (by decide) hname hvalue hkind hmem

theorem findAll_readMount_mountOpening {i : Import} (h : Text.IsName i.name) (rest : Text) :
    Text.findAll readMount (mountOpening i ++ rest) = mountOf i :: Text.findAll readMount rest := by
  have hcuts : Text.Cuts readMount (mountOpening i) [.found (mountOf i)] :=
    .found (List.cons_ne_nil _ _) (readMount_mountOpening h)
  simp only [Text.findAll_eq_filterMap]
  rw [hcuts rest]
  rfl

/-! ## The mark in the template -/

def mountTail : Text := "div data-component=\""

/-- Whether an end of the mark that a text begins with is there in another text. -/
def Shows (html source : Text) : Prop := ∀ r, r <:+ mountTail → r <+: html → r <+: source

section Shows

variable {html source : Text}

/-- A text shows nothing of the mark, if no end of the mark goes along with its beginning. -/
theorem shows_of_apart (start : Text)
    (h : ∀ r ∈ mountTail.tails, r = [] ∨ ¬ r <+: start ∧ ¬ start <+: r) (html source : Text) :
    Shows (start ++ html) source := by
  intro r hr hbegins
  rcases h r ((List.mem_tails r mountTail).mpr hr) with rfl | ⟨hstart, hstart'⟩
  · exact List.nil_prefix
  · exact absurd (List.prefix_or_prefix_of_prefix hbegins (List.prefix_append start html))
      (not_or.mpr ⟨hstart, hstart'⟩)

theorem shows_bracket (html source : Text) : Shows ('<' :: html) source :=
  shows_of_apart ['<'] (by decide) html source

theorem shows_event (b : EventBinding) (html source : Text) : Shows (b.render ++ html) source := by
  have hclick := shows_of_apart "data-click" (by decide)
  have hevent := shows_of_apart "data-event-" (by decide)
  rw [EventBinding.render, EventBinding.marker, List.append_assoc, List.append_assoc]
  split
  · exact hclick _ _
  · rw [List.append_assoc]
    exact hevent _ _

theorem Shows.append (h : Shows html source) (t : Text) : Shows (t ++ html) (t ++ source) := by
  intro r hr hbegins
  rcases List.prefix_or_prefix_of_prefix hbegins (List.prefix_append t html) with hinside | ⟨s, rfl⟩
  · exact hinside.trans (List.prefix_append t source)
  · have hs := h s ((List.suffix_append t s).trans hr) ((List.prefix_append_right_inj t).mp hbegins)
    exact (List.prefix_append_right_inj t).mpr hs

/-- Where the mark is not in the template, it does not come about. -/
theorem Shows.findAll_readMount (h : Shows html source) {t : Text}
    (hmark : ¬ mountMark <:+: t ++ source) :
    Text.findAll readMount (t ++ html) = Text.findAll readMount html := by
  refine Text.findAll_append_of_none fun u v heq hne ↦ not_ne_iff.mp fun hread ↦ hmark ?_
  obtain ⟨d, v, rfl⟩ := List.exists_cons_of_ne_nil hne
  obtain ⟨rfl, htail⟩ := List.cons_prefix_cons.mp (isPrefix_of_readMount hread)
  have hbegins := (h.append v) mountTail List.suffix_rfl htail
  have hwhole : mountMark <+: '<' :: (v ++ source) := List.cons_prefix_cons.mpr ⟨rfl, hbegins⟩
  rw [heq, List.append_assoc]
  exact hwhole.isInfix.trans (List.suffix_append u _).isInfix

end Shows

/-! ## Mounted components of a tree -/

/-- The component that a tag of a name mounts. -/
def mountsOf (c : Component) (name : Text) : List Mount := (c.import? name).toList.map mountOf

def Leaf.mounts (c : Component) : Leaf → List Mount
  | use name _ => mountsOf c name
  | _ => []

def Frame.mounts (c : Component) : Frame → List Mount
  | element name _ => if name = linkName then [] else mountsOf c name
  | _ => []

/-- The components that a tree mounts, in the order of the source. -/
def Tree.mounts (c : Component) : Tree → List Mount
  | nil => []
  | leaf l rest => l.mounts c ++ rest.mounts c
  | frame f body rest => f.mounts c ++ (body.mounts c ++ rest.mounts c)

variable {c : Component} {T : Tree} {html source : Text}

theorem name_of_import? {name : Text} {i : Import} (h : c.import? name = some i) :
    i.name = name := by
  simpa using List.find?_some h

theorem findAll_mountedOpening (hnames : NamesFit (tagNames c)) {name : Text}
    (hname : name ∈ tagNames c) (hlink : name ≠ linkName) (attributes : Text) :
    Text.findAll readMount (mountedOpening c name attributes ++ html) =
      mountsOf c name ++ Text.findAll readMount html := by
  obtain ⟨i, hi⟩ := exists_import_of_mem_tagNames hname hlink
  have hiname : Text.IsName i.name := by
    rw [name_of_import? hi]
    exact (hnames name hname).1
  have hopening : mountedOpening c name attributes ++ html =
      mountOpening i ++ (componentAttributes (fillPlaceholders c.fields attributes) ++ html) := by
    rw [mountedOpening, hi]
    exact List.append_assoc _ _ _
  have hmounts : mountsOf c name = [mountOf i] := by
    rw [mountsOf, hi]
    rfl
  calc Text.findAll readMount (mountedOpening c name attributes ++ html)
      = mountOf i :: Text.findAll readMount
          (componentAttributes (fillPlaceholders c.fields attributes) ++ html) := by
        rw [hopening]
        exact findAll_readMount_mountOpening hiname _
    _ = mountOf i :: Text.findAll readMount html :=
        congrArg (mountOf i :: ·) (findAll_readMount_of_nowhere
          (nowhere_mountMark_of_notMem (lt_notMem_componentAttributes _)) html)
    _ = mountsOf c name ++ Text.findAll readMount html := by
        rw [hmounts]
        rfl

theorem shows_mountedOpening {name : Text} (hname : name ∈ tagNames c) (hlink : name ≠ linkName)
    (attributes : Text) : Shows (mountedOpening c name attributes ++ html) source := by
  obtain ⟨i, hi⟩ := exists_import_of_mem_tagNames hname hlink
  rw [mountedOpening, hi]
  exact shows_bracket _ _

theorem nowhere_mountMark_writeBinding {name : Text} (h : Text.IsName name) :
    Text.Nowhere (mountMark <+: ·) (writeBinding name) := by
  have hopening : Text.Nowhere (mountMark <+: ·) ("<span data-bind=\"$" : Text) := by decide
  have hclosing : Text.Nowhere (mountMark <+: ·) ("\"></span>" : Text) := by decide
  exact (hopening.append (nowhere_mountMark_of_notMem
    (h.notMem_of_not_isWord (by decide)))).append hclosing

theorem nowhere_mountMark_blockOpening (condition : Text) :
    Text.Nowhere (mountMark <+: ·) (blockOpening condition) := by
  have hopening : Text.Nowhere (mountMark <+: ·) ("<div data-if=\"" : Text) := by decide
  have hclosing : Text.Nowhere (mountMark <+: ·) ("\" style=\"display: none;\">" : Text) := by
    decide
  exact (hopening.append (nowhere_mountMark_of_notMem (Text.lt_notMem_escape condition))).append
    hclosing

theorem findAll_linkOpening {attributes : Text} (h : ¬ mountMark <:+: attributes) (html : Text) :
    Text.findAll readMount (linkOpening attributes ++ html) = Text.findAll readMount html := by
  have hopening : Text.Nowhere (mountMark <+: ·) ("<a" : Text) := by decide
  have hclosing : Text.Nowhere (mountMark <+: ·) (" data-link=\"true\">" : Text) := by decide
  have hshows : Shows (" data-link=\"true\">" ++ html) [] := shows_of_apart _ (by decide) _ _
  have hmark : ¬ mountMark <:+: Text.trimRight attributes ++ [] := by
    rw [List.append_nil]
    exact fun hoccurs ↦ h (hoccurs.trans (Text.isPrefix_trimRight attributes).isInfix)
  rw [linkOpening, List.append_assoc, List.append_assoc, findAll_readMount_of_nowhere hopening,
    hshows.findAll_readMount hmark, findAll_readMount_of_nowhere hclosing]

section Leaves

variable {l : Leaf} (hsound : (l.fill c.fields).Sound (tagNames c) (tagNames c))

include hsound

theorem Leaf.shows (h : Shows html source) :
    Shows (l.html c ++ html) ((l.fill c.fields).source ++ source) := by
  cases l with
  | text t => exact h.append _
  | placeholder key => exact h.append _
  | use name attributes =>
    rw [Leaf.html, List.append_assoc]
    exact shows_mountedOpening hsound.1 hsound.2.1 attributes
  | event front b =>
    exact (shows_event b html _).append [front]
  | binding name => exact shows_bracket _ _

theorem Leaf.findAll_readMount (hnames : NamesFit (tagNames c)) (h : Shows html source)
    (hmark : ¬ mountMark <:+: (l.fill c.fields).source ++ source) :
    Text.findAll readMount (l.html c ++ html) = l.mounts c ++ Text.findAll readMount html := by
  cases l with
  | text t => exact h.findAll_readMount hmark
  | placeholder key => exact h.findAll_readMount hmark
  | use name attributes =>
    have hclosing : Text.Nowhere (mountMark <+: ·) ("></div>" : Text) := by decide
    rw [Leaf.html, List.append_assoc, findAll_mountedOpening hnames hsound.1 hsound.2.1,
      findAll_readMount_of_nowhere hclosing]
    rfl
  | event front b =>
    exact findAll_readMount_of_nowhere (nowhere_mountMark_of_notMem (notMem_event hsound).1) html
  | binding name => exact findAll_readMount_of_nowhere (nowhere_mountMark_writeBinding hsound) html

end Leaves

section Frames

variable {f : Frame} (hsound : (f.fill c.fields).Sound (tagNames c) (tagNames c))

include hsound

theorem Frame.shows_openingHtml (hraw : f.mark? ≠ none) :
    Shows (f.openingHtml c ++ html) source := by
  cases f with
  | raw opening closing => exact absurd rfl hraw
  | element name attributes =>
    by_cases hlink : name = linkName
    · rw [Frame.openingHtml_link hlink]
      exact shows_bracket _ _
    · rw [Frame.openingHtml_component hlink, List.append_assoc]
      exact shows_mountedOpening hsound.1 hlink attributes
  | block blank condition => exact shows_bracket _ _

omit hsound in
theorem Frame.shows_closingHtml (hraw : f.mark? ≠ none) :
    Shows (f.closingHtml c ++ html) source := by
  cases f with
  | raw opening closing => exact absurd rfl hraw
  | element name attributes =>
    by_cases hlink : name = linkName
    · rw [Frame.closingHtml_link hlink]
      exact shows_bracket _ _
    · rw [Frame.closingHtml_component hlink]
      exact shows_bracket _ _
  | block blank condition => exact shows_bracket _ _

theorem Frame.findAll_openingHtml (hnames : NamesFit (tagNames c)) (hraw : f.mark? ≠ none)
    (hmark : ¬ mountMark <:+: (f.fill c.fields).opening ++ source) (html : Text) :
    Text.findAll readMount (f.openingHtml c ++ html) =
      f.mounts c ++ Text.findAll readMount html := by
  cases f with
  | raw opening closing => exact absurd rfl hraw
  | element name attributes =>
    by_cases hlink : name = linkName
    · subst hlink
      rw [Frame.openingHtml_link rfl, Frame.mounts, if_pos rfl]
      refine findAll_linkOpening (fun hoccurs ↦ hmark ?_) html
      have hinside : fillPlaceholders c.fields attributes <:+:
          '<' :: (linkName ++ (fillPlaceholders c.fields attributes ++ ['>'])) :=
        ⟨'<' :: linkName, ['>'], by simp⟩
      exact hoccurs.trans (hinside.trans (List.prefix_append _ source).isInfix)
    · have hend : Text.Nowhere (mountMark <+: ·) (">" : Text) := by decide
      rw [Frame.openingHtml_component hlink, Frame.mounts, if_neg hlink, List.append_assoc,
        findAll_mountedOpening hnames hsound.1 hlink, findAll_readMount_of_nowhere hend]
  | block blank condition =>
    exact findAll_readMount_of_nowhere (nowhere_mountMark_blockOpening _) html

omit hsound in
theorem Frame.findAll_closingHtml (hraw : f.mark? ≠ none) (html : Text) :
    Text.findAll readMount (f.closingHtml c ++ html) = Text.findAll readMount html := by
  have hdiv : Text.Nowhere (mountMark <+: ·) ("</div>" : Text) := by decide
  have hanchor : Text.Nowhere (mountMark <+: ·) ("</a>" : Text) := by decide
  cases f with
  | raw opening closing => exact absurd rfl hraw
  | element name attributes =>
    by_cases hlink : name = linkName
    · rw [Frame.closingHtml_link hlink]
      exact findAll_readMount_of_nowhere hanchor html
    · rw [Frame.closingHtml_component hlink]
      exact findAll_readMount_of_nowhere hdiv html
  | block blank condition => exact findAll_readMount_of_nowhere hdiv html

end Frames

section Markup

variable (hleaf : ∀ l ∈ T.leaves, (l.fill c.fields).Sound (tagNames c) (tagNames c))
variable (hframe : ∀ q ∈ T.frames, (q.1.fill c.fields).Sound (tagNames c) (tagNames c))
variable (hraw : ∀ q ∈ T.frames, q.1.mark? ≠ none) (h : Shows html source)

include hleaf hframe hraw h

theorem Tree.shows_html : Shows (T.html c ++ html) ((T.fill c.fields).source ++ source) := by
  induction T with
  | nil => exact h
  | leaf l rest ih =>
    obtain ⟨hl, hrest⟩ := List.forall_mem_cons.mp hleaf
    rw [Tree.html, Tree.fill, Tree.map, Tree.source, List.append_assoc, List.append_assoc]
    exact Leaf.shows hl (ih hrest hframe hraw)
  | frame f body rest =>
    rw [Tree.html, List.append_assoc, List.append_assoc]
    exact Frame.shows_openingHtml (hframe _ List.mem_cons_self) (hraw _ List.mem_cons_self)

/-- **What is mounted is read off the markup.** -/
theorem Tree.findAll_readMount_html (hnames : NamesFit (tagNames c))
    (hmark : ¬ mountMark <:+: (T.fill c.fields).source ++ source) :
    Text.findAll readMount (T.html c ++ html) = T.mounts c ++ Text.findAll readMount html := by
  have hbehind : ∀ {t u : Text}, ¬ mountMark <:+: t ++ u → ¬ mountMark <:+: u :=
    fun hnone hoccurs ↦ hnone (hoccurs.trans (List.suffix_append _ _).isInfix)
  induction T generalizing html source with
  | nil => rfl
  | leaf l rest ih =>
    obtain ⟨hl, hrest⟩ := List.forall_mem_cons.mp hleaf
    rw [Tree.fill, Tree.map, Tree.source, List.append_assoc] at hmark
    rw [Tree.html, Tree.mounts, List.append_assoc,
      Leaf.findAll_readMount hl hnames (Tree.shows_html hrest hframe hraw h) hmark,
      ih hrest hframe hraw h (hbehind hmark), List.append_assoc]
  | frame f body rest ihBody ihRest =>
    obtain ⟨hbody, hrest⟩ := List.forall_mem_append.mp hleaf
    obtain ⟨hf, hframes⟩ := List.forall_mem_cons.mp hframe
    obtain ⟨hbodyFrames, hrestFrames⟩ := List.forall_mem_append.mp hframes
    obtain ⟨hfRaw, hraws⟩ := List.forall_mem_cons.mp hraw
    obtain ⟨hbodyRaw, hrestRaw⟩ := List.forall_mem_append.mp hraws
    rw [Tree.fill, Tree.map, Tree.source, List.append_assoc, List.append_assoc] at hmark
    have hmarkBody := hbehind hmark
    rw [List.append_assoc] at hmarkBody
    have hmarkRest := hbehind (hbehind hmarkBody)
    -- The closing that is written begins with a bracket, so the mark cannot go on behind the body.
    rw [Tree.html, Tree.mounts, List.append_assoc, List.append_assoc, List.append_assoc,
      Frame.findAll_openingHtml hf hnames hfRaw hmark,
      ihBody hbody hbodyFrames hbodyRaw (Frame.shows_closingHtml hfRaw) hmarkBody,
      Frame.findAll_closingHtml hfRaw,
      ihRest hrest hrestFrames hrestRaw h hmarkRest, List.append_assoc, List.append_assoc]

end Markup

/-! ## Tags that are left -/

section Tags

variable {names : List Text} (hnames : NamesFit names)

include hnames

theorem untagged_opening {written t : Text} (hwritten : written ∈ writtenNames)
    (hend : ∀ rest, Text.atWordEnd (t ++ rest) = true) (ht : '<' ∉ t) :
    Untagged names ('<' :: (written ++ t)) := by
  have hname : ∀ written ∈ writtenNames, Text.IsName written := by decide
  refine untagged_of_forall fun name hmem ↦ ?_
  exact nowhere_beginsTag_opening (hnames name hmem).1 (hname written hwritten)
    (fun heq ↦ hnames.notMem hwritten (heq ▸ hmem)) hend (nowhere_beginsTag_of_notMem ht)

theorem untagged_writeBinding {name : Text} (hname : Text.IsName name) :
    Untagged names (writeBinding name) := by
  have hspan : ("span" : Text) ∈ writtenNames := by decide
  have hparts : writeBinding name =
      ('<' :: ("span" ++ (" data-bind=\"$" ++ (name ++ "\">")))) ++ ("</" ++ "span" ++ ">") := by
    have hassoc : ∀ a b s t u v : Text, a = '<' :: (s ++ t) → b = u ++ v →
        a ++ name ++ b = ('<' :: (s ++ (t ++ (name ++ u)))) ++ v := by
      rintro _ _ s t u v rfl rfl
      simp only [List.cons_append, List.append_assoc]
    exact hassoc _ _ _ _ _ _ (by decide) (by decide)
  have hbehind : ∀ s t : Text, '<' ∉ s → '<' ∉ t → '<' ∉ s ++ (name ++ t) := by
    intro s t hs ht
    simp [hs, ht, hname.notMem_of_not_isWord (show isWord '<' = false by decide)]
  rw [hparts]
  exact (untagged_opening hnames hspan (fun rest ↦ Text.atWordEnd_cons (by decide) _)
    (hbehind _ _ (by decide) (by decide))).append
    (inert_closing (fun name hname ↦ (hnames name hname).1) (by decide) (hnames.notMem hspan)).1

theorem untagged_blockOpening (condition : Text) : Untagged names (blockOpening condition) := by
  have hdiv : ("div" : Text) ∈ writtenNames := by decide
  have hparts : blockOpening condition = '<' :: ("div" ++ (" data-if=\"" ++
      (Text.escape condition ++ "\" style=\"display: none;\">"))) := by
    have hassoc : ∀ a s t u v : Text, a = '<' :: (s ++ t) →
        a ++ u ++ v = '<' :: (s ++ (t ++ (u ++ v))) := by
      rintro _ s t u v rfl
      simp only [List.cons_append, List.append_assoc]
    exact hassoc _ _ _ _ _ (by decide)
  have hbehind : ∀ s t : Text, '<' ∉ s → '<' ∉ t → '<' ∉ s ++ (Text.escape condition ++ t) := by
    intro s t hs ht
    simp [hs, ht, Text.lt_notMem_escape]
  rw [hparts]
  exact untagged_opening hnames hdiv (fun rest ↦ Text.atWordEnd_cons (by decide) _)
    (hbehind _ _ (by decide) (by decide))

theorem Leaf.Sound.untagged_lowered {l : Leaf} (h : l.Sound names []) :
    Untagged names l.lowerEvent.lowerBinding.source := by
  cases l with
  | text t => exact h.1
  | placeholder key => exact h.elim
  | use name attributes => cases h.1
  | event front b => exact untagged_of_notMem (notMem_event h).1
  | binding name => exact untagged_writeBinding hnames h

theorem Frame.Sound.untagged_lowered {f : Frame} (h : f.Sound names []) :
    Untagged names f.lowerBlock.opening ∧ Untagged names f.lowerBlock.closing := by
  cases f with
  | raw opening closing => exact ⟨h.1.1.1, h.2.1.1⟩
  | element name attributes => cases h.1
  | block blank condition =>
    exact ⟨untagged_blockOpening hnames (Text.trim condition), (inert_divClosing hnames).1⟩

end Tags

/-- **No tag is left.** -/
theorem Tree.WellWritten.untagged_html (h : T.WellWritten c) (hmarkup : c.markup = T.source) :
    Untagged (tagNames c) (T.html c) := by
  obtain ⟨-, hsound⟩ := h.beforeEvents_eq hmarkup
  have hhtml : (T.map (fun l ↦ (l.mounted c).lowerEvent.lowerBinding)
      fun f ↦ (f.mounted c).lowerBlock).source = T.html c :=
    Tree.source_map_eq_html (fun l hl ↦ h.leaf_html hl) fun q hq ↦ h.frame_html hq
  rw [← hhtml]
  refine Tree.nowhere_source ?_ ?_
  · rw [Tree.leaves_map]
    exact List.forall_mem_map.mpr fun l hl ↦
      (hsound.leaf _ (Tree.mem_leaves_map hl)).untagged_lowered h.namesFit
  · rw [Tree.frames_map]
    exact List.forall_mem_map.mpr fun q hq ↦
      (hsound.frame _ (Tree.mem_frames_map hq)).untagged_lowered h.namesFit

/-- **Components are mounted where their tags stood.** The template is lowered part by part, so that
the elements hold what the tags held. No tag of a component is left, and the components that are
found in the result are those that the tags ask for, each with the framework of its import. -/
theorem Tree.components_are_mounted (hmarkup : c.markup = T.source) (h : T.WellWritten c)
    (hmark : ¬ mountMark <:+: fillPlaceholders c.fields c.markup) :
    lower c = T.html c ∧
      (∀ i ∈ c.imports, ∀ s, s <:+ lower c → ¬ BeginsTag i.name s) ∧
      Text.findAll readMount (lower c) = T.mounts c := by
  rw [h.lower_eq_html hmarkup]
  refine ⟨rfl, fun i hi s hs hbegins ↦ ?_, ?_⟩
  · have hname : i.name ∈ tagNames c := List.mem_cons_of_mem _ (List.mem_map_of_mem hi)
    obtain ⟨front, heq⟩ := hs
    have hne : s ≠ [] := by
      rintro rfl
      rcases hbegins with ⟨rest, hnil, -⟩ | hnil
      · cases hnil
      · cases List.prefix_nil.mp hnil
    refine ((h.untagged_html hmarkup).beginsTag hname).not_of_suffix heq.symm hne [] ?_
    rwa [List.append_nil]
  · have hfilled := Tree.fillPlaceholders_source (fun name hname ↦ (h.namesFit name hname).1)
      h.closed h.unlowered h.sound
    rw [hmarkup, hfilled, ← List.append_nil (T.fill c.fields).source] at hmark
    have hfound := Tree.findAll_readMount_html (fun l hl ↦ h.sound_fill_leaf hl)
      (fun q hq ↦ h.sound_fill_frame hq) h.unlowered (fun r _ hr ↦ hr) h.namesFit hmark
    have hnil : Text.findAll readMount [] = [] := by
      rw [Text.findAll, Text.pieces]
      rfl
    rwa [List.append_nil, hnil, List.append_nil] at hfound

/-- A template in which a component holds another twice, once with a block between. -/
def cardTree : Tree :=
  .leaf (.text "<main>") (.frame (.element "Card" " title=\"x\"")
    (.frame (.block ' ' "$n")
      (.frame (.element "Row" " size=\x7b$n\x7d") (.leaf (.binding "n") .nil) .nil)
      (.leaf (.use "Row" " ") (.leaf (.text "<p") (.leaf (.event ' ' ⟨"click", "go"⟩)
        (.leaf (.text ">.</p>") .nil)))))
    (.leaf (.use "Card" "") (.leaf (.text "</main>") .nil)))

/-- A component that imports what the template uses. -/
def cardPage : Component :=
  { file := "p.mtm"
    fields := []
    imports := [⟨1, "Card", "./Card.jsx", none⟩, ⟨2, "Row", "./Row.vue", none⟩]
    template := some ⟨3, cardTree.source⟩ }

/-- Such a template mounts four components. -/
theorem cardPage_mounts_four :
    cardPage.markup = ("<main><Card title=\"x\">\x7b#if $n\x7d<Row size=\x7b$n\x7d>" ++
      "\x7b$n\x7d</Row>\x7b/if\x7d<Row /><p click=\x7b$go\x7d>.</p></Card><Card/></main>" : Text) ∧
    lower cardPage = cardTree.html cardPage ∧
      (∀ i ∈ cardPage.imports, ∀ s, s <:+ lower cardPage → ¬ BeginsTag i.name s) ∧
      Text.findAll readMount (lower cardPage) =
        [⟨"Card", "react"⟩, ⟨"Row", "vue"⟩, ⟨"Row", "vue"⟩, ⟨"Card", "react"⟩] := by
  have hwell : cardTree.WellWritten cardPage := by decide +kernel
  have hmark : ¬ mountMark <:+: fillPlaceholders cardPage.fields cardPage.markup := by
    decide +kernel
  have hmounts : cardTree.mounts cardPage =
      [⟨"Card", "react"⟩, ⟨"Row", "vue"⟩, ⟨"Row", "vue"⟩, ⟨"Card", "react"⟩] := by decide +kernel
  rw [← hmounts]
  exact ⟨by decide +kernel, Tree.components_are_mounted rfl hwell hmark⟩

/-- **A component that holds itself is left.** The outer element ends at the first closing tag, and
that is the one of the inner element. -/
theorem inner_component_left :
    let c := Component.ofSource "p.mtm"
      "import A from \"./A.jsx\"\n<template><A><A>x</A></A></template>"
    lower c = ("<div data-component=\"A\" data-framework=\"react\" data-type=\"component\">" ++
        "<A>x</div></A>" : Text) ∧
      ∃ s, s <:+ lower c ∧ BeginsTag "A" s := by
  have hlower : lower (Component.ofSource "p.mtm"
      "import A from \"./A.jsx\"\n<template><A><A>x</A></A></template>") =
      ("<div data-component=\"A\" data-framework=\"react\" data-type=\"component\">" ++
        "<A>x</div></A>" : Text) := by decide +kernel
  refine ⟨hlower, "</A>", ?_, .inr (by decide)⟩
  rw [hlower]
  decide +kernel

end Markup

end PageCompiler
