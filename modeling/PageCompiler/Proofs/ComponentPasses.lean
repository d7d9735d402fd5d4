import PageCompiler.Proofs.ElementPasses

/-!
# Sound trees stay sound

When the tags of a name are lowered, the name is no longer pending and everything else that makes a
tree sound is kept: what is written for the tags is inert, and frames only become plain markup. So
the pass over links and the passes over the imports can be taken one after the other. Behind them a
tree has neither links nor components (`Markup.Tree.lowerLinks_source`,
`Markup.Tree.lowerComponents_source`).
-/

namespace PageCompiler

theorem Text.not_ends_append {c : Char} {u : Text} (hne : u ≠ []) (h : ¬ [c] <:+ u) (t : Text) :
    ¬ [c] <:+ t ++ u := fun hends ↦
  h (List.suffix_of_suffix_length_le hends (List.suffix_append t u) (List.length_pos_iff.mpr hne))

namespace Markup

variable {names pending : List Text} {name : Text} {T : Tree}

/-! ## Changing leaves and frames -/

section Kept

variable {onLeaf : Leaf → Leaf} {onFrame : Frame → Frame}

/-- Whether a leaf is kept, or is neither markup nor a variable and becomes markup. -/
def Leaf.KeptBy (onLeaf : Leaf → Leaf) (l : Leaf) : Prop :=
  onLeaf l = l ∨ ∃ t, (∀ u, l ≠ .text u) ∧ (∀ name, l ≠ .binding name) ∧
    onLeaf l = .text t ∧ t ≠ [] ∧ ¬ ['='] <:+ t

theorem Tree.beginsBound_map (h : ∀ l ∈ T.leaves, l.KeptBy onLeaf) :
    (T.map onLeaf onFrame).beginsBound = T.beginsBound := by
  induction T with
  | nil => rfl
  | leaf l rest ih =>
    obtain ⟨hl, hrest⟩ := List.forall_mem_cons.mp h
    rw [map]
    rcases hl with heq | ⟨t, htext, hbinding, heq, hne, -⟩
    · rw [heq]
      cases l with
      | text t =>
        cases t with
        | nil => exact ih hrest
        | cons c t => rfl
      | _ => rfl
    · rw [heq]
      obtain ⟨c, t, rfl⟩ := List.exists_cons_of_ne_nil hne
      cases l with
      | text u => exact absurd rfl (htext u)
      | binding name => exact absurd rfl (hbinding name)
      | _ => rfl
  | frame f body rest => rfl

theorem Tree.Sound.map (h : T.Sound names pending) {pending' : List Text}
    (hkept : ∀ l ∈ T.leaves, l.KeptBy onLeaf)
    (hleaf : ∀ l ∈ T.leaves, (onLeaf l).Sound names pending')
    (hraw : ∀ q ∈ T.frames, onFrame q.1 = q.1 ∨ (onFrame q.1).mark? = none)
    (hframe : ∀ q ∈ T.frames, (onFrame q.1).Sound names pending') :
    (T.map onLeaf onFrame).Sound names pending' where
  leaf := by
    rw [Tree.leaves_map]
    exact List.forall_mem_map.mpr hleaf
  frame := by
    rw [Tree.frames_map]
    exact List.forall_mem_map.mpr hframe
  nested := by
    rw [Tree.frames_map]
    refine List.forall_mem_map.mpr fun q hq mark hmark ↦ ?_
    rw [Tree.frames_map]
    refine List.forall_mem_map.mpr fun r hr hclash ↦ ?_
    -- Marks only get lost, so a clash would have been there before.
    have hsame : ∀ p ∈ T.frames, (onFrame p.1).mark? = some mark → p.1.mark? = some mark := by
      intro p hp hsome
      rcases hraw p hp with heq | hnone
      · rwa [heq] at hsome
      · rw [hnone] at hsome
        cases hsome
    exact h.nested q hq mark (hsame q hq hmark) r hr
      (hsame r ((Tree.subset_of_mem_frames hq).2 hr) hclash)
  apart := by
    rw [Tree.followed_map]
    refine List.forall_mem_map.mpr fun q hq hends ↦ ?_
    obtain ⟨hq₁, hq₂⟩ := Tree.subset_of_mem_followed hq
    rw [Tree.beginsBound_map fun l hl ↦ hkept l (hq₂ hl)]
    rcases hkept q.1 hq₁ with heq | ⟨t, -, -, heq, -, hend⟩
    · rw [heq] at hends
      exact h.apart q hq hends
    · rw [heq] at hends
      exact absurd hends hend

end Kept

/-! ## One name less -/

theorem Leaf.Sound.of_cons {l : Leaf} (h : l.Sound names (name :: pending))
    (hl : l.attributes? name = none) : l.Sound names pending := by
  cases l with
  | use other attributes =>
    obtain ⟨hother, hrest⟩ := h
    refine ⟨(List.mem_cons.mp hother).resolve_left ?_, hrest⟩
    rintro rfl
    simp [attributes?] at hl
  | _ => exact h

theorem Frame.Sound.of_cons {f : Frame} (h : f.Sound names (name :: pending))
    (hf : f.attributes? name = none) : f.Sound names pending := by
  cases f with
  | element other attributes =>
    obtain ⟨hother, hrest⟩ := h
    refine ⟨(List.mem_cons.mp hother).resolve_left ?_, hrest⟩
    rintro rfl
    simp [attributes?] at hf
  | _ => exact h

theorem Tree.Sound.lowerElements (h : T.Sound names (name :: pending))
    (huses : ∀ l ∈ T.leaves, l.attributes? name = none) {opening : Text → Text} {closing : Text}
    (hwrite : ∀ attributes, (Frame.element name attributes).Sound names (name :: pending) →
      (Frame.raw (opening attributes) closing).Sound names pending) :
    (T.map id (Frame.lowerElement name opening closing)).Sound names pending := by
  refine h.map (fun _ _ ↦ .inl rfl) (fun l hl ↦ (h.leaf l hl).of_cons (huses l hl))
    (fun q _ ↦ ?_) (fun q hq ↦ ?_)
  · cases hattributes : q.1.attributes? name with
    | none => exact .inl (Frame.lowerElement_of_none hattributes)
    | some attributes =>
      refine .inr ?_
      rw [Frame.lowerElement, hattributes]
      rfl
  · have hsound := h.frame q hq
    cases hattributes : q.1.attributes? name with
    | none =>
      rw [Frame.lowerElement_of_none hattributes]
      exact hsound.of_cons hattributes
    | some attributes =>
      rw [Frame.lowerElement, hattributes]
      rw [Frame.attributes?_eq_some_iff.mp hattributes] at hsound
      exact hwrite attributes hsound

theorem Tree.Sound.lowerUses (h : T.Sound names pending) {write : Text → Text}
    (hwrite : ∀ attributes, (Leaf.use name attributes).Sound names pending →
      Inert names (write (Text.trimRight attributes)) ∧
        write (Text.trimRight attributes) ≠ [] ∧ ¬ ['='] <:+ write (Text.trimRight attributes)) :
    (T.map (Leaf.lowerUse name write) id).Sound names pending ∧
      ∀ l ∈ (T.map (Leaf.lowerUse name write) id).leaves, l.attributes? name = none := by
  have hlowered : ∀ (l : Leaf) attributes, l.attributes? name = some attributes →
      l.lowerUse name write = .text (write (Text.trimRight attributes)) := by
    intro l attributes hl
    rw [Leaf.lowerUse, hl]
  refine ⟨h.map (fun l hl ↦ ?_) (fun l hl ↦ ?_) (fun _ _ ↦ .inl rfl) h.frame, ?_⟩
  · cases hattributes : l.attributes? name with
    | none => exact .inl (Leaf.lowerUse_of_none hattributes)
    | some attributes =>
      have hsound := h.leaf l hl
      rw [Leaf.attributes?_eq_some_iff.mp hattributes] at hsound
      refine .inr ⟨_, fun u ↦ ?_, fun other ↦ ?_, hlowered l attributes hattributes,
        (hwrite attributes hsound).2⟩
      · rintro rfl
        cases hattributes
      · rintro rfl
        cases hattributes
  · have hsound := h.leaf l hl
    cases hattributes : l.attributes? name with
    | none => rwa [Leaf.lowerUse_of_none hattributes]
    | some attributes =>
      rw [Leaf.attributes?_eq_some_iff.mp hattributes] at hsound
      rw [hlowered l attributes hattributes]
      exact (hwrite attributes hsound).1
  · rw [Tree.leaves_map]
    refine List.forall_mem_map.mpr fun l _ ↦ ?_
    cases hattributes : l.attributes? name with
    | none => rwa [Leaf.lowerUse_of_none hattributes]
    | some attributes =>
      rw [hlowered l attributes hattributes]
      rfl

/-! ## Links -/

/-- Whether names can be told from those of the elements that are written. -/
def NamesFit (names : List Text) : Prop :=
  ∀ name ∈ names, Text.IsName name ∧ name ∉ writtenNames

theorem NamesFit.notMem (h : NamesFit names) {written : Text} (hwritten : written ∈ writtenNames) :
    written ∉ names := fun hmem ↦ (h written hmem).2 hwritten

def linkOpening (attributes : Text) : Text :=
  "<a" ++ Text.trimRight attributes ++ " data-link=\"true\">"

theorem inert_linkOpening (hnames : NamesFit names) {attributes : Text}
    (hend : Text.atWordEnd attributes = true) (h : Inert names (Text.trimRight attributes)) :
    Inert names (linkOpening attributes) := by
  have hbehind : Inert names (" data-link=\"true\">" : Text) :=
    inert_of_notMem (by decide) (by decide)
  have hword : ∀ rest, Text.atWordEnd
      (Text.trimRight attributes ++ " data-link=\"true\">" ++ rest) = true := by
    intro rest
    obtain ⟨blanks, hblanks⟩ := Text.isPrefix_trimRight attributes
    cases htrim : Text.trimRight attributes with
    | nil => exact Text.atWordEnd_cons (by decide) _
    | cons c cs =>
      rw [← hblanks, htrim] at hend
      exact hend
  have hname : (['a'] : Text) ∈ writtenNames := by decide
  have heq : linkOpening attributes =
      '<' :: (['a'] ++ (Text.trimRight attributes ++ " data-link=\"true\">")) := by
    rw [linkOpening, List.append_assoc]
    rfl
  rw [heq]
  exact inert_opening (fun name hname ↦ (hnames name hname).1) (by decide) (hnames.notMem hname)
    hword (h.append hbehind)

theorem inert_divClosing (hnames : NamesFit names) : Inert names ("</div>" : Text) := by
  have hname : ("div" : Text) ∈ writtenNames := by decide
  exact inert_closing (fun name hname ↦ (hnames name hname).1) (by decide) (hnames.notMem hname)

/-- **The pass over links leaves a sound tree without links.** -/
theorem Tree.lowerLinks_source (hnames : NamesFit names) (hpending : linkName :: pending ⊆ names)
    (h : T.Sound names (linkName :: pending)) :
    lowerLinks T.source = (T.map id (Frame.lowerElement linkName linkOpening "</a>")).source ∧
      (T.map id (Frame.lowerElement linkName linkOpening "</a>")).Sound names pending := by
  have huses : ∀ l ∈ T.leaves, l.attributes? linkName = none := by
    intro l hl
    rw [Option.eq_none_iff_forall_not_mem]
    intro attributes hattributes
    have hsound := h.leaf l hl
    rw [Leaf.attributes?_eq_some_iff.mp hattributes] at hsound
    exact hsound.2.1 rfl
  constructor
  · refine substitute_elements (fun name hname ↦ (hnames name hname).1) hpending
      (hpending List.mem_cons_self) h huses fun attributes body ↦ ?_
    dsimp only
    rw [linkOpening, List.append_assoc]
  · refine h.lowerElements huses fun attributes hsound ↦ ?_
    obtain ⟨-, hfits, hinert⟩ := hsound
    rw [if_pos rfl] at hinert
    have hname : (['a'] : Text) ∈ writtenNames := by decide
    have hclosing : Inert names ("</a>" : Text) :=
      inert_closing (fun name hname ↦ (hnames name hname).1) (by decide) (hnames.notMem hname)
    have hends : ¬ ['='] <:+ linkOpening attributes :=
      Text.not_ends_append (by decide) (by decide) _
    exact ⟨⟨inert_linkOpening hnames hfits.apart hinert, List.cons_ne_nil _ _, hends⟩,
      hclosing, by decide, by decide⟩

/-! ## Components -/

/-- The opening tag of the element that a component is mounted on. -/
def mountTag (i : Import) (attributes : Text) : Text :=
  mountOpening i ++ componentAttributes attributes ++ ">"

theorem componentAttributes_trimRight (attributes : Text) :
    componentAttributes (Text.trimRight attributes) = componentAttributes attributes := by
  rw [componentAttributes, Text.trim_trimRight, componentAttributes]

theorem notMem_label {c : Char} (hc : isWord c = false) (f : Framework) : c ∉ f.label := by
  have hwords : ∀ d ∈ f.label, isWord d = true := by cases f <;> decide
  intro hmem
  rw [hwords c hmem] at hc
  cases hc

theorem inert_mountOpening (hnames : NamesFit names) {i : Import} (hi : Text.IsName i.name) :
    Inert names (mountOpening i) := by
  have hbehind : ∀ c, isWord c = false → c ∉ (" data-component=\"" : Text) →
      c ∉ ("\" data-framework=\"" : Text) → c ∉ ("\" data-type=\"component\"" : Text) →
      c ∉ " data-component=\"" ++ (i.name ++ ("\" data-framework=\"" ++ (i.framework.label ++
        ("\" data-type=\"component\"" : Text)))) := by
    intro c hc h₁ h₂ h₃
    have hname := hi.notMem_of_not_isWord hc
    have hlabel := notMem_label hc i.framework
    simp only [List.mem_append, not_or]
    exact ⟨h₁, hname, h₂, hlabel, h₃⟩
  have hname : ("div" : Text) ∈ writtenNames := by decide
  have hstart : ("<div data-component=\"" : Text) = '<' :: ("div" ++ " data-component=\"") := by
    decide
  have heq : mountOpening i = '<' :: ("div" ++ (" data-component=\"" ++ (i.name ++
      ("\" data-framework=\"" ++ (i.framework.label ++ "\" data-type=\"component\""))))) := by
    have hassoc : ∀ (start : Text) (c : Char) (t u v w x y : Text), start = c :: (t ++ u) →
        start ++ v ++ w ++ x ++ y = c :: (t ++ (u ++ (v ++ (w ++ (x ++ y))))) := by
      rintro _ c t u v w x y rfl
      simp only [List.cons_append, List.append_assoc]
    exact hassoc _ _ _ _ _ _ _ _ hstart
  rw [heq]
  refine inert_opening (fun name hname ↦ (hnames name hname).1) (by decide) (hnames.notMem hname)
    (fun rest ↦ Text.atWordEnd_cons (by decide) _) ?_
  exact inert_of_notMem (hbehind '<' (by decide) (by decide) (by decide) (by decide))
    (hbehind '\x7b' (by decide) (by decide) (by decide) (by decide))

/-- The element that a tag which closes itself is mounted on. -/
def mountUse (i : Import) (attributes : Text) : Text :=
  mountOpening i ++ componentAttributes attributes ++ "></div>"

theorem inert_mountUse (hnames : NamesFit names) {i : Import} (hi : Text.IsName i.name)
    {attributes : Text} (h : Inert names (componentAttributes attributes)) :
    Inert names (mountUse i attributes) := by
  have hend : Inert names (['>'] ++ "</div>") :=
    (inert_of_notMem (by decide) (by decide)).append (inert_divClosing hnames)
  exact ((inert_mountOpening hnames hi).append h).append hend

theorem inert_mountTag (hnames : NamesFit names) {i : Import} (hi : Text.IsName i.name)
    {attributes : Text} (h : Inert names (componentAttributes attributes)) :
    Inert names (mountTag i attributes) :=
  ((inert_mountOpening hnames hi).append h).append (inert_of_notMem (by decide) (by decide))

def Tree.mountImport (T : Tree) (i : Import) : Tree :=
  T.map (Leaf.lowerUse i.name (mountUse i)) (Frame.lowerElement i.name (mountTag i) "</div>")

theorem Tree.lowerImport_source (hnames : NamesFit names) {i : Import}
    (hpending : i.name :: pending ⊆ names) (hlink : i.name ≠ linkName)
    (h : T.Sound names (i.name :: pending)) :
    lowerImport T.source i = (T.mountImport i).source ∧ (T.mountImport i).Sound names pending := by
  have hi : i.name ∈ names := hpending List.mem_cons_self
  have hnames' : ∀ name ∈ names, Text.IsName name := fun name hname ↦ (hnames name hname).1
  have hclosed := substitute_uses hnames' hpending hi h hlink (mountUse i)
  have hwrite : ∀ attributes, (Leaf.use i.name attributes).Sound names (i.name :: pending) →
      Inert names (mountUse i (Text.trimRight attributes)) ∧
        mountUse i (Text.trimRight attributes) ≠ [] ∧
          ¬ ['='] <:+ mountUse i (Text.trimRight attributes) := by
    rintro attributes ⟨-, -, -, hinert⟩
    rw [← componentAttributes_trimRight] at hinert
    exact ⟨inert_mountUse hnames (hnames' _ hi) hinert, List.cons_ne_nil _ _,
      Text.not_ends_append (by decide) (by decide) _⟩
  obtain ⟨hsound, huses⟩ := h.lowerUses hwrite
  have hmap : T.mountImport i = (T.map (Leaf.lowerUse i.name (mountUse i)) id).map id
      (Frame.lowerElement i.name (mountTag i) "</div>") := by
    rw [map_map]
    rfl
  rw [hmap]
  constructor
  · rw [lowerImport]
    dsimp only
    rw [show (fun attributes ↦ mountOpening i ++ componentAttributes attributes ++ "></div>") =
      mountUse i from rfl, hclosed]
    refine substitute_elements hnames' hpending hi hsound huses fun attributes body ↦ ?_
    rw [mountTag, List.append_assoc _ body]
  · refine hsound.lowerElements huses fun attributes hframe ↦ ?_
    obtain ⟨-, -, hrest⟩ := hframe
    rw [if_neg hlink] at hrest
    exact ⟨⟨inert_mountTag hnames (hnames' _ hi) hrest.2, List.cons_ne_nil _ _,
      Text.not_ends_append (by decide) (by decide) _⟩,
      inert_divClosing hnames, by decide, by decide⟩

/-- **The passes over the imports leave a sound tree without components.** -/
theorem Tree.lowerComponents_source (hnames : NamesFit names) {imports : List Import}
    (hlink : ∀ i ∈ imports, i.name ≠ linkName) (hpending : imports.map Import.name ⊆ names)
    (h : T.Sound names (imports.map Import.name)) :
    lowerComponents imports T.source = (imports.foldl mountImport T).source ∧
      (imports.foldl mountImport T).Sound names [] := by
  induction imports generalizing T with
  | nil => exact ⟨rfl, h⟩
  | cons i imports ih =>
    obtain ⟨hi, himports⟩ := List.forall_mem_cons.mp hlink
    obtain ⟨hsource, hsound⟩ := lowerImport_source hnames hpending hi h
    rw [lowerComponents, List.foldl_cons, hsource, List.foldl_cons, ← lowerComponents]
    exact ih himports (List.Subset.trans (List.subset_cons_self _ _) hpending) hsound

end Markup

end PageCompiler
