import Mathlib.Order.Bounds.Basic
import PageCompiler.Proofs.LiteralLines

/-!
# Bodies of functions

The lines of a function's body are moved as one block. The blank lines at either end are left out;
every other line keeps its text, and of its indentation what goes beyond the least one among the
lines that are not blank, behind a margin of four blanks. So the lines stand to each other as they
did, and the block as a whole stands at the level inside the function.

The common indentation is counted in characters, and all characters that it takes off a line are
blank: it is no more than the indentation of the line itself, if that is not blank, and of a blank
line nothing is kept anyway.
-/

namespace PageCompiler

namespace Script

/-! ## The part between blank lines -/

/-- Whether lines are what is left of others without the blank ones at either end. -/
structure IsInkedPart (kept ls : List Text) : Prop where
  /-- Only blank lines are left out, and only at the ends. -/
  around : ∃ front last, ls = front ++ kept ++ last ∧
    (∀ l ∈ front, Text.isBlankText l = true) ∧ ∀ l ∈ last, Text.isBlankText l = true
  /-- The first line is not blank. -/
  first : ∀ l ∈ kept.head?, Text.isBlankText l = false
  /-- The last line is not blank. -/
  last : ∀ l ∈ kept.getLast?, Text.isBlankText l = false

theorem isBlankText_of_mem_head?_dropWhile {ls : List Text} {l : Text}
    (h : l ∈ (ls.dropWhile Text.isBlankText).head?) : Text.isBlankText l = false := by
  have hnot := List.head?_dropWhile_not Text.isBlankText ls
  rw [h] at hnot
  exact hnot

theorem isInkedPart_trimLines (ls : List Text) : IsInkedPart (trimLines ls) ls where
  around := exists_trimLines_around ls
  first := by
    intro l hl
    -- Taking lines off the end leaves the first one where it is.
    have hfront : trimLines ls <+: ls.dropWhile Text.isBlankText := by
      rw [← List.reverse_suffix, trimLines, List.reverse_reverse]
      exact List.dropWhile_suffix _
    obtain ⟨rest, hrest⟩ := hfront
    obtain ⟨more, hmore⟩ := List.head?_eq_some_iff.mp hl
    have hhead : l ∈ (ls.dropWhile Text.isBlankText).head? := by
      rw [← hrest, hmore]
      rfl
    exact isBlankText_of_mem_head?_dropWhile hhead
  last := by
    intro l hl
    rw [trimLines, List.getLast?_reverse] at hl
    exact isBlankText_of_mem_head?_dropWhile hl

/-! ## The least indentation -/

def indentations (ls : List Text) : Set Nat :=
  {n | ∃ l ∈ ls, Text.isBlankText l = false ∧ indentation l = n}

theorem isLeast_commonIndentation {ls : List Text}
    (h : ∃ l ∈ ls, Text.isBlankText l = false) :
    IsLeast (indentations ls) (commonIndentation ls) := by
  constructor
  · obtain ⟨l, hl, hblank⟩ := h
    have hne : (ls.filter (!Text.isBlankText ·)).map indentation ≠ [] := by
      refine List.ne_nil_of_mem (List.mem_map_of_mem (List.mem_filter.mpr ⟨hl, ?_⟩))
      rw [hblank]
      rfl
    obtain ⟨n, hn⟩ := Option.ne_none_iff_exists'.mp (List.min?_eq_none_iff.not.mpr hne)
    obtain ⟨least, hleast, rfl⟩ := List.mem_map.mp (List.min?_mem hn)
    obtain ⟨hmem, hinked⟩ := List.mem_filter.mp hleast
    refine ⟨least, hmem, by simpa using hinked, ?_⟩
    rw [commonIndentation, hn]
    rfl
  · rintro n ⟨l, hl, hblank, rfl⟩
    exact commonIndentation_le hl hblank

/-! ## One line -/

section Around

variable {blanks t trail : Text} {c : Char} (hblanks : ∀ d ∈ blanks, isBlank d = true)
  (hc : isBlank c = false)

include hblanks hc

theorem trim_around (hlast : ∀ d ∈ (c :: t).getLast?, isBlank d = false)
    (htrail : ∀ d ∈ trail, isBlank d = true) :
    Text.trim (blanks ++ (c :: t) ++ trail) = c :: t := by
  obtain ⟨init, d, heq⟩ := (List.eq_nil_or_concat (c :: t)).resolve_left (List.cons_ne_nil c t)
  rw [List.concat_eq_append] at heq
  have hd : isBlank d = false := hlast d (by rw [heq]; simp)
  rw [Text.trim_append_of_isBlank hblanks htrail, Text.trim, Text.trimLeft_cons_of_not_isBlank hc,
    heq, Text.trimRight_concat_of_not_isBlank hd]

theorem takeWhile_around : (blanks ++ (c :: t) ++ trail).takeWhile isBlank = blanks := by
  rw [List.append_assoc]
  refine Text.takeWhile_append_of_stop hblanks fun d hd ↦ ?_
  obtain rfl := Option.some.inj hd
  exact hc

end Around

namespace Inked

variable {indent : Nat} {l : Text} (x : Inked indent l)

theorem eq_around_text : l = x.lead ++ x.inner ++ (x.first :: x.more) ++ x.trail := by
  conv_lhs => rw [x.eq_append]
  simp only [List.append_assoc]

theorem moved_eq_around_text :
    moved indent l = margin ++ x.inner ++ (x.first :: x.more) ++ [] := by
  rw [x.moved_eq, List.append_nil, List.append_assoc]

theorem isBlank_of_mem_lead_inner : ∀ c ∈ x.lead ++ x.inner, isBlank c = true :=
  List.forall_mem_append.mpr ⟨x.lead_isBlank, x.inner_isBlank⟩

theorem isBlank_of_mem_margin_inner : ∀ c ∈ margin ++ x.inner, isBlank c = true :=
  List.forall_mem_append.mpr ⟨by decide, x.inner_isBlank⟩

theorem trim_eq : Text.trim l = x.first :: x.more := by
  conv_lhs => rw [x.eq_around_text]
  exact trim_around x.isBlank_of_mem_lead_inner x.first_isBlank x.last_isBlank x.trail_isBlank

theorem takeWhile_eq : l.takeWhile isBlank = x.lead ++ x.inner := by
  conv_lhs => rw [x.eq_around_text]
  exact takeWhile_around x.isBlank_of_mem_lead_inner x.first_isBlank

theorem indentation_eq : indentation l = indent + x.inner.length := by
  rw [indentation, x.takeWhile_eq, List.length_append, x.length_lead]

theorem indentation_moved : indentation (moved indent l) = 4 + x.inner.length := by
  rw [indentation, x.moved_eq_around_text,
    takeWhile_around x.isBlank_of_mem_margin_inner x.first_isBlank, List.length_append]
  rfl

include x

theorem moved_eq_append :
    moved indent l = margin ++ ((l.takeWhile isBlank).drop indent ++ Text.trim l) := by
  rw [x.moved_eq, x.takeWhile_eq, x.trim_eq, List.drop_left' x.length_lead]

theorem trim_moved : Text.trim (moved indent l) = Text.trim l := by
  rw [x.trim_eq, x.moved_eq_around_text]
  exact trim_around x.isBlank_of_mem_margin_inner x.first_isBlank x.last_isBlank
    (List.forall_mem_nil _)

end Inked

theorem isBlankText_eq_false_of_mem {t : Text} {c : Char} (hc : c ∈ t)
    (h : isBlank c = false) : Text.isBlankText t = false := by
  rw [Text.isBlankText, List.all_eq_false]
  exact ⟨c, hc, by rw [h]; decide⟩

/-- How a line stands in the declaration, when the given indentation is taken off every line: it has
the text it had, and if that is not blank, it stands behind the margin and the rest of its own
indentation. -/
structure MovesTo (least : Nat) (l l' : Text) : Prop where
  /-- The text is kept. -/
  trim_eq : Text.trim l' = Text.trim l
  /-- The line is the margin, the rest of the indentation and the text. -/
  eq_append : Text.isBlankText l' = false →
    l' = margin ++ ((l.takeWhile isBlank).drop least ++ Text.trim l)
  /-- It is as deep as it was, but for the margin and what was taken off. -/
  indentation_eq : Text.isBlankText l' = false → indentation l' + least = 4 + indentation l

theorem movesTo_moved {least : Nat} {l : Text}
    (h : Text.isBlankText l = false → least ≤ indentation l) : MovesTo least l (moved least l) := by
  cases hblank : Text.isBlankText l with
  | true =>
    have hall := forall_of_isBlankText hblank
    rw [moved_of_isBlank hall]
    exact ⟨by rw [Text.trim_of_isBlank hall]; rfl, fun h ↦ absurd h (by decide),
      fun h ↦ absurd h (by decide)⟩
  | false =>
    obtain ⟨x⟩ := exists_inked hblank (h hblank)
    refine ⟨x.trim_moved, fun _ ↦ x.moved_eq_append, fun _ ↦ ?_⟩
    rw [x.indentation_moved, x.indentation_eq]
    omega

theorem indentation_moved_of_least {least : Nat} {l : Text} (hblank : Text.isBlankText l = false)
    (h : indentation l = least) :
    Text.isBlankText (moved least l) = false ∧ indentation (moved least l) = 4 := by
  obtain ⟨x⟩ := exists_inked hblank h.ge
  have hinner := x.indentation_eq
  refine ⟨isBlankText_eq_false_of_mem (c := x.first) ?_ x.first_isBlank, ?_⟩
  · rw [x.moved_eq]
    simp
  · rw [x.indentation_moved]
    omega

/-! ## The declaration -/

theorem functionDeclaration_eq (names : List Text) (f : Function) :
    functionDeclaration names f =
      ("  const " ++ f.name ++ " = (" ++ f.parameters ++ ") => \x7b") ::
        movedLines (dereference names f.body) ++ [("  \x7d;" : Text)] := by
  rw [← bodyLines_eq]
  rfl

/-- **The lines of a body are moved as a block.** Between its opening and its closing line, the
declaration of a function has the lines of the rewritten body without the blank ones at either end.
Each has the text it had; if it is not blank, it begins with four blanks and what its indentation
had beyond the least one. So where the body has a line that is not blank, one stands right behind
the margin. -/
theorem body_moved_as_block (names : List Text) (f : Function) :
    let ls := Text.lines (dereference names f.body)
    ∃ (kept emitted : List Text) (least : Nat),
      functionDeclaration names f =
          ("  const " ++ f.name ++ " = (" ++ f.parameters ++ ") => \x7b") ::
            emitted ++ [("  \x7d;" : Text)] ∧
        IsInkedPart kept ls ∧ emitted.map Text.trim = kept.map Text.trim ∧
        List.Forall₂ (MovesTo least) kept emitted ∧
        ((∃ l ∈ ls, Text.isBlankText l = false) →
          IsLeast (indentations ls) least ∧
            ∃ l ∈ emitted, Text.isBlankText l = false ∧ indentation l = 4) := by
  intro ls
  have hpart : IsInkedPart (trimLines ls) ls := isInkedPart_trimLines ls
  have hmoves : ∀ l ∈ trimLines ls, MovesTo (commonIndentation ls) l
      (moved (commonIndentation ls) l) := by
    intro l hl
    rw [← commonIndentation_trimLines]
    exact movesTo_moved (commonIndentation_le hl)
  refine ⟨trimLines ls, movedLines (dereference names f.body), commonIndentation ls,
    functionDeclaration_eq names f, hpart, ?_, ?_, fun hinked ↦ ?_⟩
  · rw [movedLines, List.map_map]
    exact List.map_congr_left fun l hl ↦ (hmoves l hl).trim_eq
  · rw [movedLines, List.forall₂_map_right_iff, List.forall₂_same]
    exact hmoves
  · have hleast := isLeast_commonIndentation hinked
    obtain ⟨l, hl, hblank, hindent⟩ := hleast.1
    exact ⟨hleast, _, List.mem_map_of_mem (mem_trimLines hl hblank),
      indentation_moved_of_least hblank hindent⟩

/-- A body with tabs, a blank line that is not empty, and blank lines around. -/
theorem tabbed_body_moved_as_block :
    let f : Function := ⟨1, "f", "x", "\n\t\tif (x)\n \n\t\t\t$n  \n\n"⟩
    functionDeclaration ["n"] f =
        ["  const f = (x) => \x7b", "    if (x)", "", "    \tn.value", "  \x7d;"] ∧
      (∃ l ∈ Text.lines (dereference ["n"] f.body), Text.isBlankText l = false) ∧
      ∃ (kept emitted : List Text) (least : Nat),
        List.Forall₂ (MovesTo least) kept emitted ∧
          IsLeast (indentations (Text.lines (dereference ["n"] f.body))) least ∧
          ∃ l ∈ emitted, Text.isBlankText l = false ∧ indentation l = 4 := by
  intro f
  have hinked : ∃ l ∈ Text.lines (dereference ["n"] f.body), Text.isBlankText l = false := by
    decide +kernel
  obtain ⟨kept, emitted, least, -, -, -, hmoves, hleast⟩ := body_moved_as_block ["n"] f
  exact ⟨by decide +kernel, hinked, kept, emitted, least, hmoves, hleast hinked⟩

end Script

end PageCompiler
