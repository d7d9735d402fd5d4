import PageCompiler.Proofs.CutTexts
import PageCompiler.Template.Lowered

/-!
# Templates as trees

Lowering is a row of passes over one text, and each pass looks for its syntax in what the passes
before it have left. A reader of a template sees something else: elements, blocks and links that
hold others, with handlers, bound variables and plain markup between. This is a `Markup.Tree`. It
has a `source`, which is the template as text, and an `html`, which says part by part what becomes
of it.

## Passes on trees

A pass of the compiler acts on a tree by changing leaves and frames and nothing else, so that its
result is a tree of the same shape. Some frames are plain markup, written for what was lowered. To
see that a search in the source of a tree finds what the tree has (`Markup.Pass.Fits.cuts`), it
suffices to look at leaves and frames one by one, since each of them is cut in the same way whatever
follows it.
-/

namespace PageCompiler

namespace Markup

/-! ## Leaves -/

/-- A part of a template that holds no other part. -/
inductive Leaf where
  /-- Plain markup. -/
  | text (t : Text)
  /-- A metadata key in braces. -/
  | placeholder (key : Text)
  /-- A tag that mounts a component and closes itself. -/
  | use (name attributes : Text)
  /-- A handler, with the character in front of it. -/
  | event (front : Char) (b : EventBinding)
  /-- A variable in braces. -/
  | binding (name : Text)
  deriving DecidableEq, Repr

namespace Leaf

def source : Leaf → Text
  | text t => t
  | placeholder key => '\x7b' :: (key ++ ['\x7d'])
  | use name attributes => '<' :: (name ++ (attributes ++ ['/', '>']))
  | event front b => front :: (b.event ++ ("=\x7b$" ++ (b.handler ++ ['\x7d'])))
  | binding name => "\x7b$" ++ (name ++ ['\x7d'])

def event? : Leaf → Option EventBinding
  | event _ b => some b
  | _ => none

def binding? : Leaf → Option Text
  | binding name => some name
  | _ => none

end Leaf

/-! ## Frames -/

/-- What stands around a part of a template. -/
inductive Frame where
  /-- Plain markup on both sides. -/
  | raw (opening closing : Text)
  /-- The tags of a link or of a component. -/
  | element (name attributes : Text)
  /-- The marks of a block that is shown under a condition. -/
  | block (blank : Char) (condition : Text)
  deriving DecidableEq, Repr

namespace Frame

def opening : Frame → Text
  | raw opening _ => opening
  | element name attributes => '<' :: (name ++ (attributes ++ ['>']))
  | block blank condition => "\x7b#if" ++ (blank :: condition ++ ['\x7d'])

def closing : Frame → Text
  | raw _ closing => closing
  | element name _ => "</" ++ name ++ ">"
  | block _ _ => "\x7b/if\x7d"

/-- The closing that is searched for when the frame is read. -/
def mark? : Frame → Option Text
  | raw _ _ => none
  | f => some f.closing

def condition? : Frame → Option Text
  | block _ condition => some (Text.trim condition)
  | _ => none

end Frame

/-! ## Trees -/

/-- A template: leaves and frames one after the other, where a frame holds a template. -/
inductive Tree where
  | nil
  /-- A leaf and what follows it. -/
  | leaf (l : Leaf) (rest : Tree)
  /-- A frame, what it holds, and what follows it. -/
  | frame (f : Frame) (body rest : Tree)
  deriving DecidableEq, Repr

variable {T : Tree} {q : Leaf × Tree}

namespace Tree

def source : Tree → Text
  | nil => []
  | leaf l rest => l.source ++ rest.source
  | frame f body rest => f.opening ++ (body.source ++ f.closing) ++ rest.source

def map (onLeaf : Leaf → Leaf) (onFrame : Frame → Frame) : Tree → Tree
  | nil => nil
  | leaf l rest => leaf (onLeaf l) (rest.map onLeaf onFrame)
  | frame f body rest =>
    frame (onFrame f) (body.map onLeaf onFrame) (rest.map onLeaf onFrame)

def leaves : Tree → List Leaf
  | nil => []
  | leaf l rest => l :: rest.leaves
  | frame _ body rest => body.leaves ++ rest.leaves

/-- The frames with what they hold, in the order of the source. -/
def frames : Tree → List (Frame × Tree)
  | nil => []
  | leaf _ rest => rest.frames
  | frame f body rest => (f, body) :: (body.frames ++ rest.frames)

/-- The leaves with what follows them in the same frame. -/
def followed : Tree → List (Leaf × Tree)
  | nil => []
  | leaf l rest => (l, rest) :: rest.followed
  | frame _ body rest => body.followed ++ rest.followed

/-- Induction over a tree of which something is known of every leaf and of every frame. -/
theorem induction_of_mem {P : Leaf → Prop} {Q : Frame × Tree → Prop} {motive : Tree → Prop}
    (hleaf : ∀ l ∈ T.leaves, P l) (hframe : ∀ q ∈ T.frames, Q q) (nil : motive nil)
    (leaf : ∀ {l rest}, P l → motive rest → motive (leaf l rest))
    (frame : ∀ {f body rest}, Q (f, body) → motive body → motive rest →
      motive (frame f body rest)) : motive T := by
  induction T with
  | nil => exact nil
  | leaf l rest ih =>
    obtain ⟨hl, hrest⟩ := List.forall_mem_cons.mp hleaf
    exact leaf hl (ih hrest hframe)
  | frame f body rest ihBody ihRest =>
    obtain ⟨hbody, hrest⟩ := List.forall_mem_append.mp hleaf
    obtain ⟨hf, hframes⟩ := List.forall_mem_cons.mp hframe
    obtain ⟨hbody', hrest'⟩ := List.forall_mem_append.mp hframes
    exact frame hf (ihBody hbody hbody') (ihRest hrest hrest')

section Map

variable {onLeaf onLeaf' : Leaf → Leaf} {onFrame onFrame' : Frame → Frame}

theorem leaves_map (T : Tree) : (T.map onLeaf onFrame).leaves = T.leaves.map onLeaf := by
  induction T with
  | nil => rfl
  | leaf l rest ih => rw [map, leaves, ih, leaves, List.map_cons]
  | frame f body rest ihBody ihRest => rw [map, leaves, ihBody, ihRest, leaves, List.map_append]

theorem frames_map (T : Tree) : (T.map onLeaf onFrame).frames =
    T.frames.map fun q ↦ (onFrame q.1, q.2.map onLeaf onFrame) := by
  induction T with
  | nil => rfl
  | leaf l rest ih => rw [map, frames, ih, frames]
  | frame f body rest ihBody ihRest =>
    rw [map, frames, ihBody, ihRest, frames, List.map_cons, List.map_append]

theorem followed_map (T : Tree) : (T.map onLeaf onFrame).followed =
    T.followed.map fun q ↦ (onLeaf q.1, q.2.map onLeaf onFrame) := by
  induction T with
  | nil => rfl
  | leaf l rest ih => rw [map, followed, ih, followed, List.map_cons]
  | frame f body rest ihBody ihRest =>
    rw [map, followed, ihBody, ihRest, followed, List.map_append]

theorem mem_leaves_map {l : Leaf} (h : l ∈ T.leaves) :
    onLeaf l ∈ (T.map onLeaf onFrame).leaves := by
  rw [leaves_map]
  exact List.mem_map_of_mem h

theorem mem_frames_map {q : Frame × Tree} (h : q ∈ T.frames) :
    (onFrame q.1, q.2.map onLeaf onFrame) ∈ (T.map onLeaf onFrame).frames := by
  rw [frames_map]
  exact List.mem_map_of_mem h

theorem mem_followed_map (h : q ∈ T.followed) :
    (onLeaf q.1, q.2.map onLeaf onFrame) ∈ (T.map onLeaf onFrame).followed := by
  rw [followed_map]
  exact List.mem_map_of_mem h

theorem map_map (T : Tree) : (T.map onLeaf onFrame).map onLeaf' onFrame' =
    T.map (onLeaf' ∘ onLeaf) (onFrame' ∘ onFrame) := by
  induction T with
  | nil => rfl
  | leaf l rest ih => rw [map, map, ih, map, Function.comp_apply]
  | frame f body rest ihBody ihRest => rw [map, map, ihBody, ihRest, map, Function.comp_apply]

theorem map_eq_self (hleaf : ∀ l ∈ T.leaves, onLeaf l = l)
    (hframe : ∀ q ∈ T.frames, onFrame q.1 = q.1) : T.map onLeaf onFrame = T := by
  refine induction_of_mem (motive := fun T ↦ T.map onLeaf onFrame = T) hleaf hframe rfl ?_ ?_
  · intro l rest hl hrest
    rw [map, hl, hrest]
  · intro f body rest hf hbody hrest
    rw [map, hf, hbody, hrest]

end Map

theorem subset_of_mem_frames {q : Frame × Tree} (h : q ∈ T.frames) :
    q.2.leaves ⊆ T.leaves ∧ q.2.frames ⊆ T.frames := by
  induction T with
  | nil => cases h
  | leaf l rest ih =>
    obtain ⟨hleaves, hframes⟩ := ih h
    exact ⟨List.subset_cons_of_subset _ hleaves, hframes⟩
  | frame f body rest ihBody ihRest =>
    rcases List.mem_cons.mp h with rfl | hmem
    · exact ⟨List.subset_append_left _ _,
        List.subset_cons_of_subset _ (List.subset_append_left _ _)⟩
    · rcases List.mem_append.mp hmem with hbody | hrest
      · obtain ⟨hleaves, hframes⟩ := ihBody hbody
        exact ⟨List.subset_append_of_subset_left _ hleaves,
          List.subset_cons_of_subset _ (List.subset_append_of_subset_left _ hframes)⟩
      · obtain ⟨hleaves, hframes⟩ := ihRest hrest
        exact ⟨List.subset_append_of_subset_right _ hleaves,
          List.subset_cons_of_subset _ (List.subset_append_of_subset_right _ hframes)⟩

theorem subset_of_mem_followed (h : q ∈ T.followed) : q.1 ∈ T.leaves ∧ q.2.leaves ⊆ T.leaves := by
  induction T with
  | nil => cases h
  | leaf l rest ih =>
    rcases List.mem_cons.mp h with rfl | hrest
    · exact ⟨List.mem_cons_self, List.subset_cons_self _ _⟩
    · obtain ⟨hleaf, hleaves⟩ := ih hrest
      exact ⟨List.mem_cons_of_mem _ hleaf, List.subset_cons_of_subset _ hleaves⟩
  | frame f body rest ihBody ihRest =>
    rcases List.mem_append.mp h with hbody | hrest
    · obtain ⟨hleaf, hleaves⟩ := ihBody hbody
      exact ⟨List.mem_append_left _ hleaf, List.subset_append_of_subset_left _ hleaves⟩
    · obtain ⟨hleaf, hleaves⟩ := ihRest hrest
      exact ⟨List.mem_append_right _ hleaf, List.subset_append_of_subset_right _ hleaves⟩

theorem followed_subset_of_mem (h : q ∈ T.followed) : q.2.followed ⊆ T.followed := by
  induction T with
  | nil => cases h
  | leaf l rest ih =>
    rcases List.mem_cons.mp h with rfl | hrest
    · exact List.subset_cons_self _ _
    · exact List.subset_cons_of_subset _ (ih hrest)
  | frame f body rest ihBody ihRest =>
    rcases List.mem_append.mp h with hbody | hrest
    · exact List.subset_append_of_subset_left _ (ihBody hbody)
    · exact List.subset_append_of_subset_right _ (ihRest hrest)

theorem nowhere_source {p : Text → Prop} (hleaf : ∀ l ∈ T.leaves, Text.Nowhere p l.source)
    (hframe : ∀ q ∈ T.frames, Text.Nowhere p q.1.opening ∧ Text.Nowhere p q.1.closing) :
    Text.Nowhere p T.source :=
  induction_of_mem (motive := fun T ↦ Text.Nowhere p T.source) hleaf hframe trivial
    (fun hl hrest ↦ hl.append hrest)
    fun hf hbody hrest ↦ (hf.1.append (hbody.append hf.2)).append hrest

end Tree

/-! ## Passes -/

/-- What a pass finds: the pieces of each leaf, and the frames that are read as a whole. -/
structure Pass (α : Type) where
  /-- The pieces that a leaf is cut into. -/
  leaf : Leaf → List (Piece α) := fun l ↦ l.source.map .plain
  /-- What is found where a frame holds a text. -/
  frame : Frame → Option (Text → α) := fun _ ↦ none

variable {α : Type}

/-- The pieces that a tree is cut into. -/
def Tree.pieces (pass : Pass α) : Tree → List (Piece α)
  | nil => []
  | leaf l rest => pass.leaf l ++ rest.pieces pass
  | frame f body rest =>
    match pass.frame f with
    | some a => .found (a body.source) :: rest.pieces pass
    | none =>
      f.opening.map .plain ++ (body.pieces pass ++ f.closing.map .plain) ++ rest.pieces pass

namespace Pass

variable {pass : Pass α} {read : Reader α} {write : α → Text} {onLeaf : Leaf → Leaf}
  {onFrame : Frame → Frame} {T : Tree}

/-- Whether a reader finds in each leaf and at each frame of a tree what a pass finds there. -/
structure Fits (pass : Pass α) (read : Reader α) (T : Tree) : Prop where
  /-- Leaves are cut into their pieces. -/
  leaf : ∀ l ∈ T.leaves, Text.Cuts read l.source (pass.leaf l)
  /-- Nothing begins in frames that are passed over. -/
  plain : ∀ q ∈ T.frames, pass.frame q.1 = none →
    Text.Nowhere (fun s ↦ read s ≠ none) q.1.opening ∧
      Text.Nowhere (fun s ↦ read s ≠ none) q.1.closing
  /-- The other frames are read with what they hold. -/
  found : ∀ q ∈ T.frames, ∀ a, pass.frame q.1 = some a →
    Text.Cuts read (q.1.opening ++ (q.2.source ++ q.1.closing)) [.found (a q.2.source)]

/-- **A search in the source goes by the tree.** -/
theorem Fits.cuts (h : pass.Fits read T) : Text.Cuts read T.source (T.pieces pass) := by
  refine Tree.induction_of_mem (motive := fun T ↦ Text.Cuts read T.source (T.pieces pass))
    h.leaf (fun q hq ↦ And.intro (h.plain q hq) (h.found q hq)) .nil
    (fun hl hrest ↦ hl.append hrest) ?_
  rintro f body rest ⟨hplain, hfound⟩ hbody hrest
  rw [Tree.source, Tree.pieces]
  cases hframe : pass.frame f with
  | some a => exact (hfound a hframe).append hrest
  | none =>
    obtain ⟨hopening, hclosing⟩ := hplain hframe
    exact ((Text.Cuts.of_nowhere hopening).append
      (hbody.append (.of_nowhere hclosing))).append hrest

/-- Whether what a pass writes is written by changing leaves and frames. -/
structure Writes (pass : Pass α) (write : α → Text) (onLeaf : Leaf → Leaf)
    (onFrame : Frame → Frame) (T : Tree) : Prop where
  /-- A leaf is changed to what is written for its pieces. -/
  leaf : ∀ l ∈ T.leaves, (pass.leaf l).flatMap (Piece.write write) = (onLeaf l).source
  /-- Frames that are passed over are kept. -/
  plain : ∀ q ∈ T.frames, pass.frame q.1 = none → onFrame q.1 = q.1
  /-- The other frames are changed to what is written for them, and what they hold is kept. -/
  found : ∀ q ∈ T.frames, ∀ a, pass.frame q.1 = some a →
    write (a q.2.source) = (onFrame q.1).opening ++ (q.2.source ++ (onFrame q.1).closing) ∧
      q.2.map onLeaf onFrame = q.2

theorem Writes.flatMap_pieces (h : pass.Writes write onLeaf onFrame T) :
    (T.pieces pass).flatMap (Piece.write write) = (T.map onLeaf onFrame).source := by
  refine Tree.induction_of_mem (motive := fun T ↦
    (T.pieces pass).flatMap (Piece.write write) = (T.map onLeaf onFrame).source)
    h.leaf (fun q hq ↦ And.intro (h.plain q hq) (h.found q hq)) rfl ?_ ?_
  · intro l rest hl hrest
    rw [Tree.pieces, List.flatMap_append, hl, hrest]
    rfl
  · rintro f body rest ⟨hplain, hfound⟩ hbody hrest
    rw [Tree.pieces, Tree.map, Tree.source]
    cases hframe : pass.frame f with
    | some a =>
      obtain ⟨hwrite, hsame⟩ := hfound a hframe
      rw [hsame, ← hrest, ← hwrite]
      rfl
    | none =>
      dsimp only
      rw [hplain hframe, ← hrest, ← hbody]
      simp only [List.flatMap_append, Text.flatMap_write_map_plain]

/-- **A substitution in the source changes the tree.** -/
theorem substitute_source (h : pass.Fits read T) (hwrite : pass.Writes write onLeaf onFrame T) :
    Text.substitute read write T.source = (T.map onLeaf onFrame).source := by
  rw [Text.substitute_eq_flatMap, h.cuts.pieces_eq, hwrite.flatMap_pieces]

theorem values_of_leaves {value? : Leaf → Option α} (hframe : ∀ f, pass.frame f = none)
    (hleaf : ∀ l, (pass.leaf l).filterMap Piece.value? = (value? l).toList) (T : Tree) :
    (T.pieces pass).filterMap Piece.value? = T.leaves.filterMap value? := by
  rw [List.filterMap_eq_flatMap_toList value?]
  induction T with
  | nil => rfl
  | leaf l rest ih =>
    rw [Tree.pieces, List.filterMap_append, hleaf, ih, Tree.leaves, List.flatMap_cons]
  | frame f body rest ihBody ihRest =>
    rw [Tree.pieces, hframe, Tree.leaves, List.flatMap_append, ← ihBody, ← ihRest]
    simp only [List.filterMap_append, Text.filterMap_value?_map_plain, List.append_nil,
      List.nil_append]

theorem values_of_frames (hleaf : ∀ l, (pass.leaf l).filterMap Piece.value? = [])
    (hinside : ∀ q ∈ T.frames, ∀ a, pass.frame q.1 = some a →
      ∀ r ∈ q.2.frames, pass.frame r.1 = none) :
    (T.pieces pass).filterMap Piece.value? =
      T.frames.filterMap fun q ↦ (pass.frame q.1).map (· q.2.source) := by
  induction T with
  | nil => rfl
  | leaf l rest ih =>
    rw [Tree.pieces, List.filterMap_append, hleaf, ih hinside]
    rfl
  | frame f body rest ihBody ihRest =>
    obtain ⟨hf, hframes⟩ := List.forall_mem_cons.mp hinside
    obtain ⟨hbody, hrest⟩ := List.forall_mem_append.mp hframes
    rw [Tree.pieces, Tree.frames, ← List.singleton_append, List.filterMap_append,
      List.filterMap_append, ← ihBody hbody, ← ihRest hrest]
    cases hframe : pass.frame f with
    | some a =>
      have hnone : (body.pieces pass).filterMap Piece.value? = [] := by
        rw [ihBody hbody, List.filterMap_eq_nil_iff]
        intro r hr
        rw [hf a hframe r hr]
        rfl
      simp [hframe, hnone, Piece.value?]
    | none =>
      simp only [hframe, List.filterMap_append, Text.filterMap_value?_map_plain, List.append_nil,
        List.nil_append, Option.map_none, List.filterMap_cons, List.filterMap_nil]

end Pass

end Markup

end PageCompiler
