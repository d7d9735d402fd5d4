import PageCompiler.Proofs.TemplateForms
import PageCompiler.Proofs.TemplateTrees

/-!
# Well written templates

The passes that lower a template see text, and text can look like syntax where none was meant: a tag
of a component in the attribute of another, a brace at the end of a value with a dollar sign behind
it. `Markup.Tree.WellWritten` says when this does not happen. Its main part is that plain markup is
inert (`Markup.Inert`): no tag of a link or of a component begins in it and no mark of a variable or
of a block, whatever follows. Metadata is filled in first and the passes see its values, so all this
is asked of the tree with the metadata filled in.

A frame is read up to the first of its closings, so none may hold another frame with the same
closing.
-/

namespace PageCompiler

namespace Text

theorem stop_of_atWordEnd {t : Text} (h : atWordEnd t = true) :
    ∀ c, t.head? = some c → isWord c = false := by
  intro c hc
  obtain ⟨cs, rfl⟩ := List.head?_eq_some_iff.mp hc
  rwa [atWordEnd, Bool.not_eq_true'] at h

theorem atWordEnd_cons {c : Char} (h : isWord c = false) (t : Text) :
    atWordEnd (c :: t) = true := by
  rw [atWordEnd, h]
  rfl

theorem IsName.eq_of_append_eq {name other rest rest' : Text} (h : IsName name)
    (h' : IsName other) (hrest : atWordEnd rest = true) (hrest' : atWordEnd rest' = true)
    (heq : name ++ rest = other ++ rest') : name = other := by
  rw [← takeWhile_append_of_stop h.2 (stop_of_atWordEnd hrest), heq,
    takeWhile_append_of_stop h'.2 (stop_of_atWordEnd hrest')]

theorem IsName.notMem_of_not_isWord {name : Text} (h : IsName name) {c : Char}
    (hc : isWord c = false) : c ∉ name := fun hmem ↦ by
  rw [h.2 c hmem] at hc
  cases hc

theorem not_isPrefix_of_ne {p c : Char} (h : c ≠ p) (ps s : Text) : ¬ p :: ps <+: c :: s :=
  fun hbegins ↦ h (List.cons_prefix_cons.mp hbegins).1.symm

/-- Whether no brace with a name behind it ends a text, so that no placeholder leads out of it. -/
def Closed (t : Text) : Prop := ∀ name, (∀ c ∈ name, isWord c = true) → ¬ '\x7b' :: name <:+ t

end Text

namespace Markup

/-! ## Tags -/

/-- Whether a text begins with an opening or a closing tag of a name. -/
def BeginsTag (name s : Text) : Prop :=
  (∃ rest, s = '<' :: (name ++ rest) ∧ Text.atWordEnd rest = true) ∨
    ("</" ++ name ++ ">" : Text) <+: s

section Tags

variable {name other t : Text}

theorem not_beginsTag_of_ne {c : Char} (h : c ≠ '<') (s : Text) : ¬ BeginsTag name (c :: s) := by
  rintro (⟨rest, heq, -⟩ | hclosing)
  · exact h (List.cons.inj heq).1
  · exact Text.not_isPrefix_of_ne h _ s hclosing

theorem nowhere_beginsTag_of_notMem (h : '<' ∉ t) : Text.Nowhere (BeginsTag name) t :=
  Text.nowhere_of_notMem (fun _ s hc ↦ not_beginsTag_of_ne hc s) h

variable (hname : Text.IsName name) (hother : Text.IsName other) (hne : name ≠ other)

include hname hother hne

theorem not_beginsTag_opening {rest : Text} (hend : Text.atWordEnd rest = true) :
    ¬ BeginsTag name ('<' :: (other ++ rest)) := by
  rintro (⟨rest', heq, hend'⟩ | ⟨rest', heq⟩)
  · exact hne (hname.eq_of_append_eq hother hend' hend (List.cons.inj heq).2.symm)
  · obtain ⟨c, cs, rfl, hc⟩ := hother.exists_cons
    have hslash : '/' = c := (List.cons.inj (List.cons.inj heq).2).1
    rw [← hslash] at hc
    exact absurd hc (by decide)

theorem not_beginsTag_closing (rest : Text) :
    ¬ BeginsTag name ('<' :: '/' :: (other ++ ('>' :: rest))) := by
  rintro (⟨rest', heq, -⟩ | ⟨rest', heq⟩)
  · obtain ⟨c, cs, rfl, hc⟩ := hname.exists_cons
    have hslash : '/' = c := (List.cons.inj (List.cons.inj heq).2).1
    rw [← hslash] at hc
    exact absurd hc (by decide)
  · have hinside : name ++ ('>' :: rest') = other ++ ('>' :: rest) := by
      rw [List.append_assoc, List.append_assoc] at heq
      exact (List.cons.inj (List.cons.inj heq).2).2
    have hend : ∀ s, Text.atWordEnd ('>' :: s) = true := Text.atWordEnd_cons (by decide)
    exact hne (hname.eq_of_append_eq hother (hend rest') (hend rest) hinside)

theorem nowhere_beginsTag_opening (hend : ∀ rest, Text.atWordEnd (t ++ rest) = true)
    (ht : Text.Nowhere (BeginsTag name) t) :
    Text.Nowhere (BeginsTag name) ('<' :: (other ++ t)) := by
  have hinside : Text.Nowhere (BeginsTag name) other :=
    nowhere_beginsTag_of_notMem (hother.notMem_of_not_isWord (by decide))
  refine ⟨fun rest ↦ ?_, hinside.append ht⟩
  rw [List.append_assoc]
  exact not_beginsTag_opening hname hother hne (hend rest)

theorem nowhere_beginsTag_closing :
    Text.Nowhere (BeginsTag name) ("</" ++ other ++ ">" : Text) := by
  have hinside : '<' ∉ '/' :: (other ++ ['>']) := by
    have hmem := hother.notMem_of_not_isWord (show isWord '<' = false by decide)
    simp [hmem]
  have heq : ("</" ++ other ++ ">" : Text) = '<' :: '/' :: (other ++ ['>']) := rfl
  rw [heq]
  refine ⟨fun rest ↦ ?_, nowhere_beginsTag_of_notMem hinside⟩
  rw [List.cons_append, List.append_assoc]
  exact not_beginsTag_closing hname hother hne rest

end Tags

/-! ## Inert markup -/

/-- Whether a text begins with a mark of a variable or of a block. -/
def BeginsMark (s : Text) : Prop :=
  ("\x7b$" : Text) <+: s ∨ ("\x7b#if" : Text) <+: s ∨ ("\x7b/if\x7d" : Text) <+: s

/-- Whether no tag of the names begins in a text, whatever follows. -/
def Untagged (names : List Text) (t : Text) : Prop :=
  Text.Nowhere (fun s ↦ ∃ name ∈ names, BeginsTag name s) t

/-- Whether no tag of the names begins in a text and no mark, whatever follows. -/
def Inert (names : List Text) (t : Text) : Prop := Untagged names t ∧ Text.Nowhere BeginsMark t

section Inert

variable {names : List Text} {t u : Text}

theorem not_beginsMark_of_ne {c : Char} (h : c ≠ '\x7b') (s : Text) : ¬ BeginsMark (c :: s) := by
  rintro (hbound | hopening | hclosing)
  · exact Text.not_isPrefix_of_ne h _ s hbound
  · exact Text.not_isPrefix_of_ne h _ s hopening
  · exact Text.not_isPrefix_of_ne h _ s hclosing

theorem nowhere_beginsMark_of_notMem (h : '\x7b' ∉ t) : Text.Nowhere BeginsMark t :=
  Text.nowhere_of_notMem (fun _ s hc ↦ not_beginsMark_of_ne hc s) h

theorem Untagged.beginsTag (h : Untagged names t) {name : Text} (hname : name ∈ names) :
    Text.Nowhere (BeginsTag name) t :=
  h.mono fun _ hbegins ↦ ⟨name, hname, hbegins⟩

theorem untagged_of_forall (h : ∀ name ∈ names, Text.Nowhere (BeginsTag name) t) :
    Untagged names t := by
  induction t with
  | nil => trivial
  | cons c t ih =>
    refine ⟨fun rest ↦ ?_, ih fun name hname ↦ (h name hname).2⟩
    rintro ⟨name, hname, hbegins⟩
    exact (h name hname).1 rest hbegins

theorem untagged_of_notMem (h : '<' ∉ t) : Untagged names t :=
  untagged_of_forall fun _ _ ↦ nowhere_beginsTag_of_notMem h

theorem inert_of_notMem (htag : '<' ∉ t) (hmark : '\x7b' ∉ t) : Inert names t :=
  ⟨untagged_of_notMem htag, nowhere_beginsMark_of_notMem hmark⟩

theorem Inert.append (ht : Inert names t) (hu : Inert names u) : Inert names (t ++ u) :=
  ⟨ht.1.append hu.1, ht.2.append hu.2⟩

theorem Inert.bound (h : Inert names t) : Text.Nowhere (("\x7b$" : Text) <+: ·) t :=
  h.2.mono fun _ ↦ .inl

theorem Inert.opened (h : Inert names t) : Text.Nowhere (("\x7b#if" : Text) <+: ·) t :=
  h.2.mono fun _ hbegins ↦ .inr (.inl hbegins)

theorem Inert.closed (h : Inert names t) : Text.Nowhere (("\x7b/if\x7d" : Text) <+: ·) t :=
  h.2.mono fun _ hbegins ↦ .inr (.inr hbegins)

variable (hnames : ∀ name ∈ names, Text.IsName name) {other : Text} (hother : Text.IsName other)
  (hne : other ∉ names)

include hnames hother hne

theorem inert_opening (hend : ∀ rest, Text.atWordEnd (t ++ rest) = true) (ht : Inert names t) :
    Inert names ('<' :: (other ++ t)) := by
  refine ⟨untagged_of_forall fun name hname ↦ ?_, ?_⟩
  · exact nowhere_beginsTag_opening (hnames name hname) hother (fun heq ↦ hne (heq ▸ hname)) hend
      (ht.1.beginsTag hname)
  · have hfront : '\x7b' ∉ '<' :: other := by
      have hmem := hother.notMem_of_not_isWord (show isWord '\x7b' = false by decide)
      simp [hmem]
    exact (nowhere_beginsMark_of_notMem hfront).append ht.2

theorem inert_closing : Inert names ("</" ++ other ++ ">" : Text) := by
  refine ⟨untagged_of_forall fun name hname ↦ ?_, nowhere_beginsMark_of_notMem ?_⟩
  · exact nowhere_beginsTag_closing (hnames name hname) hother fun heq ↦ hne (heq ▸ hname)
  · have hmem := hother.notMem_of_not_isWord (show isWord '\x7b' = false by decide)
    simp [hmem]

end Inert

/-! ## Sound trees -/

def linkName : Text := "Link"

/-- Whether a text can stand between the name of a tag and its end. -/
structure FitsTag (names : List Text) (attributes ending : Text) : Prop where
  /-- The tag does not end earlier. -/
  within : '>' ∉ attributes
  /-- The name of the tag does not go on. -/
  apart : Text.atWordEnd attributes = true
  /-- No other tag begins here. -/
  untagged : Untagged names (attributes ++ ending)

/-- Whether a leaf is read as what it is when the metadata is filled in. Tags of the pending names
are still to be lowered. -/
def Leaf.Sound (names pending : List Text) : Leaf → Prop
  | text t => Inert names t
  | placeholder _ => False
  | use name attributes =>
    name ∈ pending ∧ name ≠ linkName ∧ FitsTag names attributes ['/', '>'] ∧
      Inert names (componentAttributes attributes)
  | event front b =>
    front ≠ '<' ∧ front ≠ '\x7b' ∧
      WritesEvent [front] (b.event ++ ("=\x7b$" ++ (b.handler ++ ['\x7d']))) b
  | binding name => Text.IsName name

/-- Whether a frame is read as what it is when the metadata is filled in. -/
def Frame.Sound (names pending : List Text) : Frame → Prop
  | raw opening closing =>
    (Inert names opening ∧ opening ≠ [] ∧ ¬ ['='] <:+ opening) ∧
      Inert names closing ∧ closing ≠ [] ∧ ¬ ['='] <:+ closing
  | element name attributes =>
    name ∈ pending ∧ FitsTag names attributes ['>'] ∧
      if name = linkName then Inert names (Text.trimRight attributes)
      else ¬ ['/'] <:+ attributes ∧ Inert names (componentAttributes attributes)
  | block blank condition =>
    isBlank blank = true ∧ condition ≠ [] ∧ '\x7b' ∉ condition ∧ '\x7d' ∉ condition ∧
      Untagged names (condition ++ ['\x7d'])

namespace Tree

/-- Whether a tree begins with a bound variable. -/
def beginsBound : Tree → Bool
  | leaf (.binding _) _ => true
  | leaf (.text []) rest => rest.beginsBound
  | _ => false

/-- Whether the parts of a tree are read as what they are when the metadata is filled in. -/
structure Sound (names pending : List Text) (T : Tree) : Prop where
  leaf : ∀ l ∈ T.leaves, l.Sound names pending
  frame : ∀ q ∈ T.frames, q.1.Sound names pending
  /-- No frame holds another that ends alike. -/
  nested : ∀ q ∈ T.frames, ∀ mark, q.1.mark? = some mark → ∀ r ∈ q.2.frames, r.1.mark? ≠ some mark
  /-- No bound variable stands behind an equals sign, where it would be a handler. -/
  apart : ∀ q ∈ T.followed, ['='] <:+ q.1.source → q.2.beginsBound = false

end Tree

/-! ## Metadata -/

def Leaf.fill (fields : FrontMatter) : Leaf → Leaf
  | text t => text (fillPlaceholders fields t)
  | placeholder key => text (writePlaceholder fields key)
  | use name attributes => use name (fillPlaceholders fields attributes)
  | l => l

def Frame.fill (fields : FrontMatter) : Frame → Frame
  | raw opening closing => raw (fillPlaceholders fields opening) (fillPlaceholders fields closing)
  | element name attributes => element name (fillPlaceholders fields attributes)
  | f => f

/-- A tree with the metadata filled in. -/
def Tree.fill (fields : FrontMatter) (T : Tree) : Tree :=
  T.map (Leaf.fill fields) (Frame.fill fields)

/-- Whether no placeholder leads out of a leaf. -/
def Leaf.Closed : Leaf → Prop
  | text t => Text.Closed t
  | placeholder key => Text.IsName key
  | _ => True

/-- The names of the tags that a component lowers. -/
def tagNames (c : Component) : List Text := linkName :: c.imports.map Import.name

/-- The names of the elements that are written when a template is lowered. -/
def writtenNames : List Text := ["a", "div", "span"]

/-- Whether a tree is read as what it is: its placeholders are apart from each other, its tags
cannot be mistaken for the ones that are written, and its parts are sound with the metadata filled
in. -/
structure Tree.WellWritten (c : Component) (T : Tree) : Prop where
  /-- Components have names that are not in use otherwise. -/
  names : ∀ i ∈ c.imports, Text.IsName i.name ∧ i.name ≠ linkName ∧ i.name ∉ writtenNames
  /-- No placeholder leads out of a leaf. -/
  closed : ∀ l ∈ T.leaves, l.Closed
  /-- No frame was lowered before. -/
  unlowered : ∀ q ∈ T.frames, q.1.mark? ≠ none
  /-- The parts are sound with the metadata filled in. -/
  sound : (T.fill c.fields).Sound (tagNames c) (tagNames c)

end Markup

end PageCompiler
