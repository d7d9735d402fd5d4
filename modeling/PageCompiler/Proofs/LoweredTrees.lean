import PageCompiler.Proofs.MarkPasses

/-!
# What becomes of a well written template

The passes put together. A template that is the source of a well written tree is lowered to the
`html` of the tree, which is put together part by part: a leaf becomes what its kind says, and a
frame becomes other markup around what it holds (`Markup.Tree.WellWritten.lower_eq_html`). The
handlers, the conditions and the bound variables that the program is told of are those of the tree,
in its order.
-/

namespace PageCompiler

namespace Markup

/-! ## The markup of a tree -/

/-- The opening of the element that a component is mounted on, with its data attributes. -/
def mountedOpening (c : Component) (name attributes : Text) : Text :=
  match c.import? name with
  | some i => mountOpening i ++ componentAttributes (fillPlaceholders c.fields attributes)
  | none => []

def Leaf.html (c : Component) : Leaf → Text
  | text t => fillPlaceholders c.fields t
  | placeholder key => writePlaceholder c.fields key
  | use name attributes => mountedOpening c name attributes ++ "></div>"
  | event front b => front :: b.render
  | binding name => writeBinding name

def Frame.openingHtml (c : Component) : Frame → Text
  | raw opening _ => fillPlaceholders c.fields opening
  | element name attributes =>
    if name = linkName then linkOpening (fillPlaceholders c.fields attributes)
    else mountedOpening c name attributes ++ ">"
  | block _ condition => blockOpening (Text.trim condition)

def Frame.closingHtml (c : Component) : Frame → Text
  | raw _ closing => fillPlaceholders c.fields closing
  | element name _ => if name = linkName then "</a>" else "</div>"
  | block _ _ => "</div>"

section Tags

variable {c : Component} {name attributes : Text}

theorem Frame.openingHtml_link (h : name = linkName) : (element name attributes).openingHtml c =
    linkOpening (fillPlaceholders c.fields attributes) :=
  if_pos h

theorem Frame.openingHtml_component (h : name ≠ linkName) :
    (element name attributes).openingHtml c = mountedOpening c name attributes ++ ">" :=
  if_neg h

theorem Frame.closingHtml_link (h : name = linkName) :
    (element name attributes).closingHtml c = "</a>" :=
  if_pos h

theorem Frame.closingHtml_component (h : name ≠ linkName) :
    (element name attributes).closingHtml c = "</div>" :=
  if_neg h

end Tags

def Tree.conditions (T : Tree) : List Text := T.frames.filterMap fun q ↦ q.1.condition?

/-- What a tree becomes. -/
def Tree.html (c : Component) : Tree → Text
  | nil => []
  | leaf l rest => l.html c ++ rest.html c
  | frame f body rest => f.openingHtml c ++ (body.html c ++ f.closingHtml c) ++ rest.html c

/-! ## All passes on a tree -/

section Imports

variable {imports : List Import}

def Leaf.mount (imports : List Import) (l : Leaf) : Leaf :=
  imports.foldl (fun l i ↦ l.lowerUse i.name (mountUse i)) l

def Frame.mount (imports : List Import) (f : Frame) : Frame :=
  imports.foldl (fun f i ↦ f.lowerElement i.name (mountTag i) "</div>") f

theorem Tree.foldl_mountImport (imports : List Import) (T : Tree) :
    imports.foldl mountImport T = T.map (Leaf.mount imports) (Frame.mount imports) := by
  induction imports generalizing T with
  | nil => exact (map_eq_self (fun _ _ ↦ rfl) fun _ _ ↦ rfl).symm
  | cons i imports ih =>
    rw [List.foldl_cons, ih, mountImport, map_map]
    rfl

theorem Leaf.mount_of_none {l : Leaf} (h : ∀ name, l.attributes? name = none) :
    l.mount imports = l :=
  List.foldl_fixed' (fun i ↦ lowerUse_of_none (h i.name)) imports

theorem Frame.mount_of_none {f : Frame} (h : ∀ name, f.attributes? name = none) :
    f.mount imports = f :=
  List.foldl_fixed' (fun i ↦ lowerElement_of_none (h i.name)) imports

/-- Where only imports of one name change anything, and only once, the first of them does. -/
theorem foldl_of_find? {α : Type} {step : α → Import → α} {x y : α} {name : Text} {i : Import}
    (h : imports.find? (·.name == name) = some i) (hother : ∀ j, j.name ≠ name → step x j = x)
    (hhere : step x i = y) (hdone : ∀ j, step y j = y) : imports.foldl step x = y := by
  induction imports with
  | nil => cases h
  | cons j imports ih =>
    rw [List.foldl_cons]
    by_cases hj : j.name = name
    · rw [List.find?_cons_of_pos (by simp [hj])] at h
      obtain rfl := Option.some.inj h
      rw [hhere, List.foldl_fixed' hdone]
    · rw [List.find?_cons_of_neg (by simp [hj])] at h
      rw [hother j hj, ih h]

theorem Leaf.mount_use {name attributes : Text} {i : Import}
    (h : imports.find? (·.name == name) = some i) :
    (use name attributes).mount imports = text (mountUse i (Text.trimRight attributes)) := by
  have hname : i.name = name := by simpa using List.find?_some h
  refine foldl_of_find? h (fun j hj ↦ lowerUse_of_none (if_neg (Ne.symm hj))) ?_
    fun j ↦ lowerUse_of_none rfl
  rw [lowerUse, attributes?_eq_some_iff.mpr (by rw [hname])]

theorem Frame.mount_element {name attributes : Text} {i : Import}
    (h : imports.find? (·.name == name) = some i) :
    (element name attributes).mount imports = raw (mountTag i attributes) "</div>" := by
  have hname : i.name = name := by simpa using List.find?_some h
  refine foldl_of_find? h (fun j hj ↦ lowerElement_of_none (if_neg (Ne.symm hj))) ?_
    fun j ↦ lowerElement_of_none rfl
  rw [lowerElement, attributes?_eq_some_iff.mpr (by rw [hname])]

theorem Leaf.event?_mount (l : Leaf) :
    (l.mount imports).event? = l.event? ∧ (l.mount imports).binding? = l.binding? := by
  induction imports generalizing l with
  | nil => exact ⟨rfl, rfl⟩
  | cons i imports ih =>
    obtain ⟨hevent, hbinding⟩ := ih (l.lowerUse i.name (mountUse i))
    rw [mount, List.foldl_cons, ← mount, hevent, hbinding, lowerUse]
    cases hl : l.attributes? i.name with
    | none => exact ⟨rfl, rfl⟩
    | some attributes =>
      obtain rfl := attributes?_eq_some_iff.mp hl
      exact ⟨rfl, rfl⟩

theorem Frame.condition?_lowerElement (name closing : Text) (opening : Text → Text) (f : Frame) :
    (f.lowerElement name opening closing).condition? = f.condition? := by
  rw [lowerElement]
  cases hf : f.attributes? name with
  | none => rfl
  | some attributes =>
    obtain rfl := attributes?_eq_some_iff.mp hf
    rfl

theorem Frame.condition?_mount (f : Frame) : (f.mount imports).condition? = f.condition? := by
  induction imports generalizing f with
  | nil => rfl
  | cons i imports ih => rw [mount, List.foldl_cons, ← mount, ih, condition?_lowerElement]

end Imports

variable {c : Component} {T : Tree}

/-- A leaf before the pass over events. -/
def Leaf.mounted (c : Component) (l : Leaf) : Leaf := (l.fill c.fields).mount c.imports

/-- A frame before the pass over events. -/
def Frame.mounted (c : Component) (f : Frame) : Frame :=
  ((f.fill c.fields).lowerElement linkName linkOpening "</a>").mount c.imports

/-- A tree before the pass over events. -/
def Tree.mounted (c : Component) (T : Tree) : Tree := T.map (Leaf.mounted c) (Frame.mounted c)

/-- The names of tags are those of imports, links apart. -/
theorem exists_import_of_mem_tagNames {name : Text} (hname : name ∈ tagNames c)
    (hlink : name ≠ linkName) : ∃ i, c.import? name = some i := by
  obtain ⟨i, hi, hiname⟩ := List.mem_map.mp ((List.mem_cons.mp hname).resolve_left hlink)
  refine Option.ne_none_iff_exists'.mp fun hnone ↦ ?_
  have hfind := List.find?_eq_none.mp hnone i hi
  simp [hiname] at hfind

namespace Tree.WellWritten

theorem namesFit (h : T.WellWritten c) : NamesFit (tagNames c) := by
  refine List.forall_mem_cons.mpr ⟨by decide, List.forall_mem_map.mpr fun i hi ↦ ?_⟩
  obtain ⟨hname, -, hwritten⟩ := h.names i hi
  exact ⟨hname, hwritten⟩

theorem beforeEvents_eq (h : T.WellWritten c) (hmarkup : c.markup = T.source) :
    beforeEvents c = (T.mounted c).source ∧ (T.mounted c).Sound (tagNames c) [] := by
  have hnames := h.namesFit
  have hfilled := Tree.fillPlaceholders_source (fun name hname ↦ (hnames name hname).1) h.closed
    h.unlowered h.sound
  obtain ⟨hlinks, hunlinked⟩ := Tree.lowerLinks_source hnames (List.Subset.refl _) h.sound
  obtain ⟨hcomponents, hsound⟩ := Tree.lowerComponents_source hnames
    (fun i hi ↦ (h.names i hi).2.1) (List.subset_cons_self _ _) hunlinked
  have hmounted : c.imports.foldl mountImport ((T.fill c.fields).map id
      (Frame.lowerElement linkName linkOpening "</a>")) = T.mounted c := by
    rw [Tree.foldl_mountImport, Tree.fill, Tree.map_map, Tree.map_map]
    rfl
  rw [hmounted] at hcomponents hsound
  exact ⟨by rw [beforeEvents, hmarkup, hfilled, hlinks, hcomponents], hsound⟩

theorem sound_fill_leaf (h : T.WellWritten c) {l : Leaf} (hl : l ∈ T.leaves) :
    (l.fill c.fields).Sound (tagNames c) (tagNames c) :=
  h.sound.leaf _ (Tree.mem_leaves_map hl)

theorem sound_fill_frame (h : T.WellWritten c) {q : Frame × Tree} (hq : q ∈ T.frames) :
    (q.1.fill c.fields).Sound (tagNames c) (tagNames c) :=
  h.sound.frame _ (Tree.mem_frames_map hq)

theorem leaf_html (h : T.WellWritten c) {l : Leaf} (hl : l ∈ T.leaves) :
    (l.mounted c).lowerEvent.lowerBinding.source = l.html c := by
  have hsound := h.sound_fill_leaf hl
  cases l with
  | use name attributes =>
    obtain ⟨hname, hlink, -⟩ := hsound
    obtain ⟨i, hi⟩ := exists_import_of_mem_tagNames hname hlink
    rw [Leaf.mounted, Leaf.fill, Leaf.mount_use hi, Leaf.html, mountedOpening, hi,
      ← componentAttributes_trimRight]
    rfl
  | _ =>
    rw [Leaf.mounted, Leaf.mount_of_none fun _ ↦ rfl]
    rfl

theorem frame_html (h : T.WellWritten c) {q : Frame × Tree} (hq : q ∈ T.frames) :
    (q.1.mounted c).lowerBlock.opening = q.1.openingHtml c ∧
      (q.1.mounted c).lowerBlock.closing = q.1.closingHtml c := by
  have hsound := h.sound_fill_frame hq
  have hraw := h.unlowered q hq
  obtain ⟨f, body⟩ := q
  cases f with
  | raw opening closing => exact absurd rfl hraw
  | element name attributes =>
    by_cases hlink : name = linkName
    · subst hlink
      have hf : ((Frame.element linkName attributes).fill c.fields).attributes? linkName =
          some (fillPlaceholders c.fields attributes) := Frame.attributes?_eq_some_iff.mpr rfl
      rw [Frame.mounted, Frame.lowerElement, hf, Frame.openingHtml_link rfl,
        Frame.closingHtml_link rfl]
      dsimp only
      rw [Frame.mount_of_none fun _ ↦ rfl]
      exact ⟨rfl, rfl⟩
    · obtain ⟨i, hi⟩ := exists_import_of_mem_tagNames hsound.1 hlink
      have hf : ((Frame.element name attributes).fill c.fields).attributes? linkName = none :=
        if_neg hlink
      rw [Frame.mounted, Frame.lowerElement_of_none hf, Frame.fill, Frame.mount_element hi,
        Frame.openingHtml_component hlink, Frame.closingHtml_component hlink, mountedOpening, hi]
      exact ⟨rfl, rfl⟩
  | block blank condition =>
    have hf : ((Frame.block blank condition).fill c.fields).attributes? linkName = none := rfl
    rw [Frame.mounted, Frame.lowerElement_of_none hf, Frame.mount_of_none fun _ ↦ rfl]
    exact ⟨rfl, rfl⟩

end Tree.WellWritten

theorem Tree.source_map_eq_html {onLeaf : Leaf → Leaf} {onFrame : Frame → Frame}
    (hleaf : ∀ l ∈ T.leaves, (onLeaf l).source = l.html c)
    (hframe : ∀ q ∈ T.frames, (onFrame q.1).opening = q.1.openingHtml c ∧
      (onFrame q.1).closing = q.1.closingHtml c) : (T.map onLeaf onFrame).source = T.html c := by
  refine induction_of_mem (motive := fun T ↦ (T.map onLeaf onFrame).source = T.html c)
    hleaf hframe rfl ?_ ?_
  · intro l rest hl hrest
    rw [map, source, html, hl, hrest]
  · intro f body rest hf hbody hrest
    rw [map, source, html, hf.1, hf.2, hbody, hrest]

namespace Tree.WellWritten

variable (h : T.WellWritten c) (hmarkup : c.markup = T.source)

include h hmarkup

/-- **A template is lowered part by part.** -/
theorem lower_eq_html : lower c = T.html c := by
  obtain ⟨hevents, hsound⟩ := h.beforeEvents_eq hmarkup
  obtain ⟨hsound', hnone⟩ := hsound.lowerEvents
  rw [lower, beforeBindings, beforeBlocks, hevents, Tree.lowerEvents_source hsound,
    Tree.lowerBlocks_source hsound', Tree.lowerBindings_source hsound' hnone, Tree.mounted,
    Tree.map_map, Tree.map_map, Tree.map_map]
  exact Tree.source_map_eq_html (fun l hl ↦ h.leaf_html hl) fun q hq ↦ h.frame_html hq

theorem eventBindings_eq :
    eventBindings (beforeEvents c) = (T.leaves.filterMap Leaf.event?).eraseDups := by
  obtain ⟨hevents, hsound⟩ := h.beforeEvents_eq hmarkup
  rw [hevents, Tree.eventBindings_source hsound, Tree.mounted, Tree.leaves_map,
    List.filterMap_map]
  congr 1
  refine List.filterMap_congr fun l _ ↦ ?_
  rw [Function.comp_apply, Leaf.mounted, (Leaf.event?_mount _).1]
  cases l <;> rfl

theorem conditions_eq :
    (blocks (beforeBlocks c)).map ConditionalBlock.condition = T.conditions ∧
      ∀ b ∈ blocks (beforeBlocks c), b.isNested = false := by
  obtain ⟨hevents, hsound⟩ := h.beforeEvents_eq hmarkup
  obtain ⟨hblocks, hnested⟩ := Tree.blocks_source hsound.lowerEvents.1
  rw [beforeBlocks, hevents, Tree.lowerEvents_source hsound]
  refine ⟨?_, hnested⟩
  rw [hblocks, Tree.mounted, Tree.map_map, Tree.frames_map, List.filterMap_map,
    List.map_filterMap, Tree.conditions]
  refine List.filterMap_congr fun q _ ↦ ?_
  rw [Function.comp_apply, Option.map_map]
  have hcondition : (q.1.mounted c).condition? = q.1.condition? := by
    rw [Frame.mounted, Frame.condition?_mount, Frame.condition?_lowerElement]
    cases q.1 <;> rfl
  dsimp only [Function.comp_apply, id]
  rw [hcondition]
  exact Option.map_id_apply

theorem bindings_eq :
    bindings (beforeBindings c) = distinct (T.leaves.filterMap Leaf.binding?) := by
  obtain ⟨hevents, hsound⟩ := h.beforeEvents_eq hmarkup
  obtain ⟨hsound', hnone⟩ := hsound.lowerEvents
  rw [beforeBindings, beforeBlocks, hevents, Tree.lowerEvents_source hsound,
    Tree.lowerBlocks_source hsound', Tree.bindings_source hsound' hnone, Tree.mounted,
    Tree.map_map, Tree.leaves_map, List.filterMap_map]
  congr 1
  refine List.filterMap_congr fun l _ ↦ ?_
  have hlower : ∀ l : Leaf, l.lowerEvent.binding? = l.binding? := by
    intro l
    cases l <;> rfl
  rw [Function.comp_apply, Function.comp_apply, hlower, Leaf.mounted, (Leaf.event?_mount _).2]
  cases l <;> rfl

end Tree.WellWritten

end Markup

/-! ## The lowered template -/

theorem Lowering.tableFrom_of_conditions {c : Component}
    {known : OrderedMap (Option Condition.Tree)} {blocks : List Markup.ConditionalBlock}
    (h : ∀ b ∈ blocks, b.isNested = false) :
    tableFrom c known blocks = tableFrom c known
      ((blocks.map Markup.ConditionalBlock.condition).map (Markup.ConditionalBlock.mk · [])) := by
  induction blocks generalizing known with
  | nil => rfl
  | cons b rest ih =>
    obtain ⟨hb, hrest⟩ := List.forall_mem_cons.mp h
    have hnone : nestingWarnings c b = [] := by
      rw [nestingWarnings, hb]
      rfl
    have hnone' : nestingWarnings c ⟨b.condition, []⟩ = [] := rfl
    simp only [List.map_cons, tableFrom, hnone, hnone', ih hrest]

/-- **What is known of a lowered template is read off its tree.** -/
theorem Markup.Tree.WellWritten.lowerTemplate_eq {c : Component} {T : Tree} (h : T.WellWritten c)
    (hmarkup : c.markup = T.source) :
    c.lowerTemplate =
      let table := Lowering.tableFrom c [] (T.conditions.map (ConditionalBlock.mk · []))
      { result := table.conditions.map fun conditions ↦
          { html := T.html c
            events := (T.leaves.filterMap Leaf.event?).eraseDups
            conditions
            bindings := distinct (T.leaves.filterMap Leaf.binding?) }
        notes := table.notes
        warnings := table.warnings } := by
  obtain ⟨hconditions, hnested⟩ := h.conditions_eq hmarkup
  rw [Component.lowerTemplate, Lowering.tableFrom_of_conditions hnested, hconditions,
    h.lower_eq_html hmarkup, h.eventBindings_eq hmarkup, h.bindings_eq hmarkup]

end PageCompiler
