import PageCompiler.Proofs.WellWrittenTemplates

/-!
# Checking a template

Whether a tree is well written can be decided (`Markup.Tree.WellWritten`), though it is asked of
parts of the template that something begins nowhere in them *whatever follows*. To begin in a text
with some rest is either to begin in the text already or to be cut off by its end, and both can be
seen in the text.
-/

namespace PageCompiler

namespace Text

theorem exists_isPrefix_append_iff {mark s : Text} :
    (∃ rest, mark <+: s ++ rest) ↔ mark <+: s ∨ s <+: mark := by
  constructor
  · rintro ⟨rest, hmark⟩
    exact List.prefix_or_prefix_of_prefix hmark (List.prefix_append s rest)
  · rintro (hmark | ⟨rest, rfl⟩)
    · exact ⟨[], by rwa [List.append_nil]⟩
    · exact ⟨rest, List.prefix_rfl⟩

instance (mark s : Text) : Decidable (∃ rest, mark <+: s ++ rest) :=
  decidable_of_iff _ exists_isPrefix_append_iff.symm

instance decidableNowhere (p : Text → Prop) [∀ s, Decidable (∃ rest, p (s ++ rest))] :
    (t : Text) → Decidable (Nowhere p t)
  | [] => isTrue trivial
  | c :: t =>
    have := decidableNowhere p t
    decidable_of_iff ((¬ ∃ rest, p (c :: t ++ rest)) ∧ Nowhere p t) (and_congr_left' not_exists)

theorem closed_iff {t : Text} :
    Closed t ↔ (t.reverse.dropWhile isWord).head? ≠ some '\x7b' := by
  constructor
  · intro h hhead
    obtain ⟨front, hfront⟩ := List.head?_eq_some_iff.mp hhead
    refine h (t.reverse.takeWhile isWord).reverse (fun c hc ↦ ?_) ⟨front.reverse, ?_⟩
    · exact List.mem_takeWhile_imp (List.mem_reverse.mp hc)
    · calc front.reverse ++ '\x7b' :: (t.reverse.takeWhile isWord).reverse
          = (t.reverse.takeWhile isWord ++ '\x7b' :: front).reverse := by simp
        _ = t := by rw [← hfront, List.takeWhile_append_dropWhile, List.reverse_reverse]
  · rintro h name hname ⟨front, rfl⟩
    refine h ?_
    have hreverse : (front ++ '\x7b' :: name).reverse =
        name.reverse ++ '\x7b' :: front.reverse := by simp
    rw [hreverse, dropWhile_append_of_stop (fun c hc ↦ hname c (List.mem_reverse.mp hc))
      (stop_of_atWordEnd (atWordEnd_cons (by decide) _))]
    rfl

instance (t : Text) : Decidable (Closed t) := decidable_of_iff _ closed_iff.symm

end Text

namespace Markup

/-! ## Inert markup -/

theorem exists_beginsTag_iff {name s : Text} :
    (∃ rest, BeginsTag name (s ++ rest)) ↔
      s <+: '<' :: name ∨
        (('<' :: name) <+: s ∧ Text.atWordEnd (s.drop (name.length + 1)) = true) ∨
        ("</" ++ name ++ ">" : Text) <+: s ∨ s <+: ("</" ++ name ++ ">" : Text) := by
  rw [← Text.exists_isPrefix_append_iff]
  constructor
  · rintro ⟨rest, ⟨behind, heq, hend⟩ | hclosing⟩
    · rw [← List.cons_append] at heq
      rcases List.append_eq_append_iff.mp heq with ⟨u, hname, -⟩ | ⟨u, rfl, rfl⟩
      · exact .inl ⟨u, hname.symm⟩
      · refine .inr (.inl ⟨List.prefix_append _ _, ?_⟩)
        rw [← List.length_cons, List.drop_left]
        cases u with
        | nil => rfl
        | cons c u => exact hend
    · exact .inr (.inr ⟨rest, hclosing⟩)
  · rintro (⟨rest, heq⟩ | ⟨⟨behind, rfl⟩, hend⟩ | ⟨rest, hclosing⟩)
    · refine ⟨rest, .inl ⟨[], ?_, rfl⟩⟩
      rw [heq, List.append_nil]
    · rw [← List.length_cons, List.drop_left] at hend
      refine ⟨[], .inl ⟨behind, ?_, hend⟩⟩
      rw [List.append_nil]
      rfl
    · exact ⟨rest, .inr hclosing⟩

instance (names : List Text) (t : Text) : Decidable (Untagged names t) :=
  have (s : Text) : Decidable (∃ rest, ∃ name ∈ names, BeginsTag name (s ++ rest)) :=
    have (name : Text) : Decidable (∃ rest, BeginsTag name (s ++ rest)) :=
      decidable_of_iff _ exists_beginsTag_iff.symm
    decidable_of_iff (∃ name ∈ names, ∃ rest, BeginsTag name (s ++ rest))
      ⟨fun ⟨name, hname, rest, h⟩ ↦ ⟨rest, name, hname, h⟩,
        fun ⟨rest, name, hname, h⟩ ↦ ⟨name, hname, rest, h⟩⟩
  Text.decidableNowhere _ t

instance (t : Text) : Decidable (Text.Nowhere BeginsMark t) :=
  have (s : Text) : Decidable (∃ rest, BeginsMark (s ++ rest)) :=
    decidable_of_iff ((∃ rest, ("\x7b$" : Text) <+: s ++ rest) ∨
      (∃ rest, ("\x7b#if" : Text) <+: s ++ rest) ∨ ∃ rest, ("\x7b/if\x7d" : Text) <+: s ++ rest)
      (by simp only [BeginsMark, exists_or])
  Text.decidableNowhere _ t

instance (names : List Text) (t : Text) : Decidable (Inert names t) :=
  inferInstanceAs (Decidable (_ ∧ _))

/-! ## Leaves, frames and trees -/

instance (names : List Text) (attributes ending : Text) :
    Decidable (FitsTag names attributes ending) :=
  decidable_of_iff ('>' ∉ attributes ∧ Text.atWordEnd attributes = true ∧
    Untagged names (attributes ++ ending))
    ⟨fun ⟨hwithin, hapart, huntagged⟩ ↦ ⟨hwithin, hapart, huntagged⟩,
      fun h ↦ ⟨h.within, h.apart, h.untagged⟩⟩

theorem writesEvent_iff {front : Char} {b : EventBinding} :
    WritesEvent [front] (b.event ++ ("=\x7b$" ++ (b.handler ++ ['\x7d']))) b ↔
      inAttribute front = false ∧ b.event.head?.any isLatinLetter = true ∧
        (∀ c ∈ b.event, inAttribute c = true) ∧ Text.IsName b.handler := by
  simp [WritesEvent, Option.any_eq_true]

instance (names pending : List Text) : (l : Leaf) → Decidable (l.Sound names pending)
  | .text t => inferInstanceAs (Decidable (Inert names t))
  | .placeholder _ => isFalse id
  | .use _ _ => inferInstanceAs (Decidable (_ ∧ _ ∧ _ ∧ _))
  | .event front b =>
    have : Decidable (WritesEvent [front] (b.event ++ ("=\x7b$" ++ (b.handler ++ ['\x7d']))) b) :=
      decidable_of_iff _ writesEvent_iff.symm
    inferInstanceAs (Decidable (_ ∧ _ ∧ _))
  | .binding name => inferInstanceAs (Decidable (Text.IsName name))

instance (names pending : List Text) : (f : Frame) → Decidable (f.Sound names pending)
  | .raw _ _ => inferInstanceAs (Decidable ((_ ∧ _ ∧ _) ∧ _ ∧ _ ∧ _))
  | .element name attributes =>
    inferInstanceAs (Decidable (_ ∧ _ ∧
      if name = linkName then Inert names (Text.trimRight attributes)
      else ¬ ['/'] <:+ attributes ∧ Inert names (componentAttributes attributes)))
  | .block _ _ => inferInstanceAs (Decidable (_ ∧ _ ∧ _ ∧ _ ∧ _))

instance (names pending : List Text) (T : Tree) : Decidable (T.Sound names pending) :=
  decidable_of_iff ((∀ l ∈ T.leaves, l.Sound names pending) ∧
    (∀ q ∈ T.frames, q.1.Sound names pending) ∧
    (∀ q ∈ T.frames, q.1.mark? ≠ none → ∀ r ∈ q.2.frames, r.1.mark? ≠ q.1.mark?) ∧
    ∀ q ∈ T.followed, ['='] <:+ q.1.source → q.2.beginsBound = false)
    (by
      constructor
      · rintro ⟨hleaf, hframe, hnested, hapart⟩
        refine ⟨hleaf, hframe, fun q hq mark hmark ↦ ?_, hapart⟩
        rw [← hmark]
        exact hnested q hq (hmark ▸ Option.some_ne_none mark)
      · intro h
        refine ⟨h.leaf, h.frame, fun q hq hmark ↦ ?_, h.apart⟩
        obtain ⟨mark, hmark⟩ := Option.ne_none_iff_exists'.mp hmark
        rw [hmark]
        exact h.nested q hq mark hmark)

instance : (l : Leaf) → Decidable l.Closed
  | .text t => inferInstanceAs (Decidable (Text.Closed t))
  | .placeholder key => inferInstanceAs (Decidable (Text.IsName key))
  | .use _ _ => isTrue trivial
  | .event _ _ => isTrue trivial
  | .binding _ => isTrue trivial

instance (c : Component) (T : Tree) : Decidable (T.WellWritten c) :=
  decidable_of_iff ((∀ i ∈ c.imports, Text.IsName i.name ∧ i.name ≠ linkName ∧
      i.name ∉ writtenNames) ∧
    (∀ l ∈ T.leaves, l.Closed) ∧ (∀ q ∈ T.frames, q.1.mark? ≠ none) ∧
    (T.fill c.fields).Sound (tagNames c) (tagNames c))
    ⟨fun ⟨hnames, hclosed, hunlowered, hsound⟩ ↦ ⟨hnames, hclosed, hunlowered, hsound⟩,
      fun h ↦ ⟨h.names, h.closed, h.unlowered, h.sound⟩⟩

end Markup

end PageCompiler
