import PageCompiler.Proofs.Texts

/-!
# Texts that are searched part by part

A search goes from left to right, so that what it finds in a part of a text can depend on what
follows the part. Here are the parts for which it does not. In the simplest of them nothing begins,
whatever follows (`Text.Nowhere`). In general a part is cut into the same pieces before every rest
(`Text.Cuts`), and then a text that is put together from such parts is searched by searching each
of them.
-/

namespace PageCompiler

def Piece.write {α : Type} (write : α → Text) : Piece α → Text
  | .plain c => [c]
  | .found a => write a

/-- What was found, if the piece is not a mere character. -/
def Piece.value? {α : Type} : Piece α → Option α
  | .plain _ => none
  | .found a => some a

namespace Text

/-! ## Parts in which nothing begins -/

/-- Whether nowhere in a text something begins, whatever follows the text. -/
def Nowhere (p : Text → Prop) : Text → Prop
  | [] => True
  | c :: t => (∀ rest, ¬ p (c :: (t ++ rest))) ∧ Nowhere p t

section Nowhere

variable {p q : Text → Prop} {t u : Text}

theorem Nowhere.append (ht : Nowhere p t) (hu : Nowhere p u) : Nowhere p (t ++ u) := by
  induction t with
  | nil => exact hu
  | cons c t ih =>
    have hc : ∀ rest, ¬ p (c :: (t ++ u ++ rest)) := by
      intro rest
      rw [List.append_assoc]
      exact ht.1 (u ++ rest)
    exact ⟨hc, ih ht.2⟩

theorem Nowhere.of_append_right (h : Nowhere p (t ++ u)) : Nowhere p u := by
  induction t with
  | nil => exact h
  | cons c t ih => exact ih h.2

theorem Nowhere.mono (h : Nowhere p t) (hq : ∀ s, q s → p s) : Nowhere q t := by
  induction t with
  | nil => trivial
  | cons c t ih => exact ⟨fun rest hbegins ↦ h.1 rest (hq _ hbegins), ih h.2⟩

theorem nowhere_of_forall_mem (h : ∀ c ∈ t, ∀ s, ¬ p (c :: s)) : Nowhere p t := by
  induction t with
  | nil => trivial
  | cons c t ih =>
    obtain ⟨hc, ht⟩ := List.forall_mem_cons.mp h
    exact ⟨fun rest ↦ hc _, ih ht⟩

theorem nowhere_of_notMem {start : Char} (hp : ∀ c s, c ≠ start → ¬ p (c :: s))
    (h : start ∉ t) : Nowhere p t :=
  nowhere_of_forall_mem fun c hc s ↦ hp c s fun heq ↦ h (heq ▸ hc)

theorem Nowhere.not_begins (h : Nowhere p t) (hne : t ≠ []) (rest : Text) : ¬ p (t ++ rest) := by
  obtain ⟨c, t, rfl⟩ := List.exists_cons_of_ne_nil hne
  exact h.1 rest

theorem Nowhere.not_of_suffix (h : Nowhere p t) {front back : Text} (heq : t = front ++ back)
    (hback : back ≠ []) (rest : Text) : ¬ p (back ++ rest) := by
  subst heq
  exact h.of_append_right.not_begins hback rest

theorem Nowhere.firstBehind {mark : Text} (h : Nowhere (mark <+: ·) t) : FirstBehind mark t :=
  fun _ _ heq hback ↦ h.not_of_suffix heq hback mark

theorem Nowhere.not_isInfix {mark : Text} (h : Nowhere (mark <+: ·) t) (hne : mark ≠ []) :
    ¬ mark <:+: t := by
  rintro ⟨front, rest, rfl⟩
  rw [List.append_assoc] at h
  have hbegins := h.not_of_suffix rfl (List.append_ne_nil_of_left_ne_nil hne rest) []
  rw [List.append_nil] at hbegins
  exact hbegins (List.prefix_append _ _)

end Nowhere

/-! ## Parts that are cut -/

variable {α : Type} {read : Reader α}

/-- Whether a search cuts a text into the given pieces, whatever follows the text. -/
def Cuts (read : Reader α) (t : Text) (ps : List (Piece α)) : Prop :=
  ∀ rest, pieces read (t ++ rest) = ps ++ pieces read rest

namespace Cuts

variable {t u : Text} {ps qs : List (Piece α)}

theorem nil : Cuts read [] [] := fun _ ↦ rfl

theorem append (ht : Cuts read t ps) (hu : Cuts read u qs) : Cuts read (t ++ u) (ps ++ qs) := by
  intro rest
  rw [List.append_assoc, ht, hu, List.append_assoc]

theorem pieces_eq (h : Cuts read t ps) : pieces read t = ps := by
  have heq := h []
  rwa [List.append_nil, pieces, List.append_nil] at heq

theorem of_nowhere (h : Nowhere (fun s ↦ read s ≠ none) t) : Cuts read t (t.map .plain) := by
  intro rest
  induction t with
  | nil => rfl
  | cons c t ih =>
    rw [List.cons_append, pieces_cons_of_none (not_ne_iff.mp (h.1 rest)), ih h.2]
    rfl

theorem found {a : α} (hne : t ≠ []) (h : ∀ rest, read (t ++ rest) = some (a, rest)) :
    Cuts read t [.found a] := by
  intro rest
  obtain ⟨c, t, rfl⟩ := List.exists_cons_of_ne_nil hne
  have hlength : rest.length ≤ (t ++ rest).length := by
    rw [List.length_append]
    exact Nat.le_add_left _ _
  exact pieces_cons_of_some (h rest) hlength

end Cuts

theorem substitute_eq_flatMap (write : α → Text) (t : Text) :
    substitute read write t = (pieces read t).flatMap (Piece.write write) := by
  rw [substitute]
  congr 1

theorem findAll_eq_filterMap (t : Text) :
    findAll read t = (pieces read t).filterMap Piece.value? := by
  rw [findAll]
  congr 1

@[simp]
theorem flatMap_write_map_plain (write : α → Text) (t : Text) :
    (t.map .plain).flatMap (Piece.write write) = t := by
  induction t with
  | nil => rfl
  | cons c t ih => exact congrArg (c :: ·) ih

@[simp]
theorem filterMap_value?_map_plain (t : Text) :
    ((t.map .plain : List (Piece α)).filterMap Piece.value?) = [] := by
  induction t with
  | nil => rfl
  | cons c t ih => exact ih

end Text

end PageCompiler
