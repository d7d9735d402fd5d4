import PageCompiler.Proofs.Texts

/-!
# Divisions of a text

What a pass over a text finds is told here without the reader that finds it. A `Text.Form` says
which texts, standing behind which others, are the written form of what. `Text.Divides` cuts a text
at the written forms in it, from left to right and without overlap: in front of each there is text
in which nothing begins, and behind the last there is more of it.

Every text has a division (`Text.exists_divides`). Where a reader reads exactly what is written,
`Text.pieces` goes by it, so that it is the only one (`Text.existsUnique_divides`), and searching
and replacing are given by it (`Text.Divides.findAll`, `Text.Divides.substitute`).
-/

namespace PageCompiler

namespace Text

variable {α : Type}

/-- Says which texts are written forms of what, given the text in front of them. -/
abbrev Form (α : Type) := (before source : Text) → α → Prop

/-- Whether something written begins a text. -/
def Form.Begins (form : Form α) (before t : Text) : Prop :=
  ∃ source a, source <+: t ∧ form before source a

/-- Whether nothing written begins in a text, given what stands before and behind it. -/
def Form.Clear (form : Form α) (before t rest : Text) : Prop :=
  ∀ front back, t = front ++ back → back ≠ [] → ¬ form.Begins (before ++ front) (back ++ rest)

/-- Whether a text that stands behind another is cut at everything written in it: each with the text
in front of it, and the text behind the last. -/
inductive Divides (form : Form α) : (before t : Text) → List (Text × α) → (last : Text) → Prop
  | last {before t : Text} : form.Clear before t [] → Divides form before t [] t
  | found {before front source rest last : Text} {a : α} {parts : List (Text × α)} :
    form.Clear before front (source ++ rest) → form (before ++ front) source a →
    Divides form (before ++ (front ++ source)) rest parts last →
    Divides form before (front ++ (source ++ rest)) ((front, a) :: parts) last

variable {form : Form α} {before t last : Text} {parts : List (Text × α)}

theorem Divides.exists_form (h : Divides form before t parts last) {part : Text × α}
    (hpart : part ∈ parts) : ∃ before source, form before source part.2 := by
  induction h with
  | last => exact absurd hpart List.not_mem_nil
  | found _ hform _ ih =>
    rcases List.mem_cons.mp hpart with rfl | hpart
    · exact ⟨_, _, hform⟩
    · exact ih hpart

/-! ## Existence -/

theorem Form.clear_nil (before rest : Text) : form.Clear before [] rest := by
  intro front back h hback
  exact absurd (List.append_eq_nil_iff.mp h.symm).2 hback

theorem Form.Clear.cons {c : Char} {cs rest : Text} (hc : ¬ form.Begins before (c :: cs ++ rest))
    (h : form.Clear (before ++ [c]) cs rest) : form.Clear before (c :: cs) rest := by
  intro front back heq hback
  cases front with
  | nil =>
    rw [List.append_nil, ← (show c :: cs = back from heq)]
    exact hc
  | cons d front =>
    obtain ⟨rfl, rfl⟩ := List.cons.inj heq
    have := h front back rfl hback
    rwa [List.append_assoc, List.singleton_append] at this

theorem Form.Clear.of_append {front back rest : Text} (h : form.Clear before (front ++ back) rest) :
    form.Clear (before ++ front) back rest := by
  rintro front' back' rfl hback
  have hbegins := h (front ++ front') back' (List.append_assoc _ _ _).symm hback
  rwa [List.append_assoc]

theorem Form.Clear.nil {rest : Text} (h : form.Clear before t rest) : form.Clear before t [] := by
  rintro front back heq hback ⟨source, a, hstart, hform⟩
  rw [List.append_nil] at hstart
  exact h front back heq hback ⟨source, a, hstart.trans (List.prefix_append _ _), hform⟩

theorem Divides.exists_cons {c : Char} {cs : Text} (hc : ¬ form.Begins before (c :: cs))
    (h : Divides form (before ++ [c]) cs parts last) :
    ∃ parts last, Divides form before (c :: cs) parts last := by
  cases h with
  | last hclear =>
    refine ⟨_, _, .last (.cons ?_ hclear)⟩
    rwa [List.append_nil]
  | @found _ front source rest _ a parts hclear hform hrest =>
    have hfront : form.Clear before (c :: front) (source ++ rest) := hclear.cons hc
    rw [List.append_assoc, List.singleton_append] at hform hrest
    exact ⟨_, _, .found hfront hform hrest⟩

/-- **Every text can be divided**, unless nothing at all is something written. -/
theorem exists_divides (hform : ∀ before source a, form before source a → source ≠ [])
    (before t : Text) : ∃ parts last, Divides form before t parts last := by
  induction hlength : t.length using Nat.strong_induction_on generalizing before t with
  | _ n ih =>
    subst hlength
    by_cases hbegins : form.Begins before t
    · obtain ⟨source, a, ⟨rest, rfl⟩, hsource⟩ := hbegins
      have hpositive := List.length_pos_iff.mpr (hform _ _ _ hsource)
      have hshorter : rest.length < (source ++ rest).length := by
        rw [List.length_append]
        omega
      obtain ⟨parts, last, hrest⟩ := ih rest.length hshorter (before ++ ([] ++ source)) rest rfl
      have hfirst : form (before ++ []) source a := by rwa [List.append_nil]
      exact ⟨_, _, .found (Form.clear_nil before (source ++ rest)) hfirst hrest⟩
    · cases t with
      | nil => exact ⟨[], [], .last (Form.clear_nil _ _)⟩
      | cons c cs =>
        obtain ⟨parts, last, hrest⟩ := ih cs.length (Nat.lt_succ_self _) (before ++ [c]) cs rfl
        exact hrest.exists_cons hbegins

/-! ## Readers -/

/-- Whether a reader reads exactly what is written, wherever it stands, and never nothing. -/
structure Reads (read : Reader α) (form : Form α) : Prop where
  ne_nil : ∀ before source a, form before source a → source ≠ []
  iff : ∀ before t a rest,
    read t = some (a, rest) ↔ ∃ source, form before source a ∧ t = source ++ rest

def assemble (parts : List (Text × α)) (last : Text) : List (Piece α) :=
  parts.flatMap (fun part ↦ part.1.map .plain ++ [.found part.2]) ++ last.map .plain

theorem assemble_cons (front : Text) (a : α) (parts : List (Text × α)) (last : Text) :
    assemble ((front, a) :: parts) last = front.map .plain ++ .found a :: assemble parts last := by
  rw [assemble, List.flatMap_cons, assemble, List.append_assoc, List.append_assoc,
    List.singleton_append]

theorem found_mem_assemble {a : α} : .found a ∈ assemble parts last ↔ a ∈ parts.map Prod.snd := by
  simp [assemble]

variable {read : Reader α}

theorem Reads.eq_none (hread : Reads read form) (h : ¬ form.Begins before t) : read t = none := by
  rw [Option.eq_none_iff_forall_not_mem]
  rintro ⟨a, rest⟩ hmem
  obtain ⟨source, hsource, rfl⟩ := (hread.iff before t a rest).mp hmem
  exact h ⟨source, a, List.prefix_append _ _, hsource⟩

theorem Reads.pieces_clear (hread : Reads read form) {front rest : Text}
    (h : form.Clear before front rest) :
    pieces read (front ++ rest) = front.map .plain ++ pieces read rest := by
  induction front generalizing before with
  | nil => rfl
  | cons c cs ih =>
    have hc : read (c :: (cs ++ rest)) = none :=
      hread.eq_none (h [] (c :: cs) rfl (List.cons_ne_nil _ _))
    have hcs : form.Clear (before ++ [c]) cs rest := Form.Clear.of_append h
    rw [List.cons_append, pieces_cons_of_none hc, ih hcs]
    rfl

theorem Reads.pieces_found (hread : Reads read form) {source : Text} {a : α}
    (h : form before source a) (rest : Text) :
    pieces read (source ++ rest) = .found a :: pieces read rest := by
  obtain ⟨c, cs, rfl⟩ := List.exists_cons_of_ne_nil (hread.ne_nil _ _ _ h)
  have hlength : rest.length ≤ (cs ++ rest).length := by
    rw [List.length_append]
    exact Nat.le_add_left _ _
  exact pieces_cons_of_some ((hread.iff before _ a rest).mpr ⟨_, h, rfl⟩) hlength

theorem Divides.pieces_eq (hread : Reads read form) (h : Divides form before t parts last) :
    pieces read t = assemble parts last := by
  induction h with
  | @last before t hclear =>
    have hpieces := hread.pieces_clear hclear
    rw [List.append_nil, pieces, List.append_nil] at hpieces
    exact hpieces
  | @found before front source rest last a parts hclear hform _ ih =>
    rw [hread.pieces_clear hclear, hread.pieces_found hform, ih, assemble_cons]

theorem filterMap_assemble {f : Piece α → Option α} (hplain : ∀ c, f (.plain c) = none)
    (hfound : ∀ a, f (.found a) = some a) (parts : List (Text × α)) (last : Text) :
    (assemble parts last).filterMap f = parts.map Prod.snd := by
  have hnone : ∀ u : Text, (u.map Piece.plain).filterMap f = [] := by
    intro u
    rw [List.filterMap_map]
    exact List.filterMap_eq_nil_iff.mpr fun c _ ↦ hplain c
  induction parts with
  | nil => exact hnone last
  | cons part parts ih =>
    rw [assemble_cons, List.filterMap_append, hnone, List.nil_append, List.filterMap_cons,
      hfound, ih, List.map_cons]

theorem flatMap_assemble {f : Piece α → Text} (hplain : ∀ c, f (.plain c) = [c])
    (parts : List (Text × α)) (last : Text) :
    (assemble parts last).flatMap f =
      parts.flatMap (fun part ↦ part.1 ++ f (.found part.2)) ++ last := by
  have hsame : ∀ u : Text, (u.map Piece.plain).flatMap f = u := by
    intro u
    rw [List.flatMap_map, List.flatMap_congr fun c _ ↦ hplain c, List.flatMap_singleton']
  induction parts with
  | nil => exact hsame last
  | cons part parts ih =>
    rw [assemble_cons, List.flatMap_append, hsame, List.flatMap_cons, ih, List.flatMap_cons,
      List.append_assoc, List.append_assoc]

theorem Divides.findAll (hread : Reads read form) (h : Divides form before t parts last) :
    findAll read t = parts.map Prod.snd := by
  rw [Text.findAll, h.pieces_eq hread]
  exact filterMap_assemble (fun _ ↦ rfl) (fun _ ↦ rfl) parts last

theorem Reads.findAll_of_clear (hread : Reads read form) {rest : Text}
    (h : form.Clear before t rest) : Text.findAll read t = [] :=
  (Divides.last h.nil).findAll hread

theorem Reads.clear_of_findAll (hread : Reads read form) (h : Text.findAll read t = []) :
    form.Clear [] t [] := by
  obtain ⟨parts, last, hdivides⟩ := exists_divides hread.ne_nil [] t
  rw [hdivides.findAll hread] at h
  cases hdivides with
  | last hclear => exact hclear
  | found => cases h

theorem Divides.substitute (hread : Reads read form) (h : Divides form before t parts last)
    (write : α → Text) :
    substitute read write t = parts.flatMap (fun part ↦ part.1 ++ write part.2) ++ last := by
  rw [Text.substitute, h.pieces_eq hread]
  exact flatMap_assemble (fun _ ↦ rfl) parts last

/-! ## Uniqueness -/

theorem front_eq_of_append_found {front front' : Text} {a a' : α} {rest rest' : List (Piece α)}
    (h : front.map Piece.plain ++ .found a :: rest = front'.map Piece.plain ++ .found a' :: rest') :
    front = front' ∧ a = a' ∧ rest = rest' := by
  induction front generalizing front' with
  | nil =>
    cases front' with
    | nil =>
      obtain ⟨hhead, hrest⟩ := List.cons.inj h
      exact ⟨rfl, Piece.found.inj hhead, hrest⟩
    | cons d front' => cases (List.cons.inj h).1
  | cons c front ih =>
    cases front' with
    | nil => cases (List.cons.inj h).1
    | cons d front' =>
      obtain ⟨hhead, hrest⟩ := List.cons.inj h
      obtain ⟨rfl, heq⟩ := ih hrest
      rw [Piece.plain.inj hhead]
      exact ⟨rfl, heq⟩

theorem map_plain_ne_assemble_cons (front : Text) (a : α) (parts : List (Text × α))
    (last t : Text) : t.map Piece.plain ≠ assemble ((front, a) :: parts) last := by
  intro h
  have hfound : Piece.found a ∈ t.map Piece.plain := by
    rw [h, assemble_cons]
    exact List.mem_append_right _ List.mem_cons_self
  obtain ⟨c, -, hc⟩ := List.mem_map.mp hfound
  cases hc

theorem assemble_inj {parts parts' : List (Text × α)} {last last' : Text}
    (h : assemble parts last = assemble parts' last') : parts = parts' ∧ last = last' := by
  induction parts generalizing parts' with
  | nil =>
    cases parts' with
    | nil => exact ⟨rfl, List.map_injective_iff.mpr (fun _ _ ↦ Piece.plain.inj) h⟩
    | cons part parts' => exact absurd h (map_plain_ne_assemble_cons _ _ _ _ _)
  | cons part parts ih =>
    cases parts' with
    | nil => exact absurd h.symm (map_plain_ne_assemble_cons _ _ _ _ _)
    | cons part' parts' =>
      rw [assemble_cons, assemble_cons] at h
      obtain ⟨hfront, ha, hrest⟩ := front_eq_of_append_found h
      obtain ⟨rfl, rfl⟩ := ih hrest
      exact ⟨congrArg₂ List.cons (Prod.ext hfront ha) rfl, rfl⟩

/-- **A text that is searched by its divisions has one.** -/
theorem existsUnique_divides (hform : ∀ before source a, form before source a → source ≠ [])
    {found : List (Piece α)}
    (hfound : ∀ parts last, Divides form before t parts last → found = assemble parts last) :
    ∃ parts last, ∀ parts' last',
      Divides form before t parts' last' ↔ parts' = parts ∧ last' = last := by
  obtain ⟨parts, last, hdivides⟩ := exists_divides hform before t
  refine ⟨parts, last, fun parts' last' ↦ ⟨fun h ↦ ?_, ?_⟩⟩
  · exact assemble_inj ((hfound _ _ h).symm.trans (hfound _ _ hdivides))
  · rintro ⟨rfl, rfl⟩
    exact hdivides

/-! ## Separators -/

/-- What is written stays clear of a character that no written form holds. -/
theorem Reads.read_append_cons (hread : Reads read form) {separator : Char}
    (h : ∀ before source a, form before source a → separator ∉ source) (t rest : Text) :
    read (t ++ separator :: rest) =
      (read t).map fun found ↦ (found.1, found.2 ++ separator :: rest) := by
  cases hfound : read t with
  | some found =>
    obtain ⟨source, hsource, rfl⟩ := (hread.iff [] t found.1 found.2).mp hfound
    refine (hread.iff [] _ _ _).mpr ⟨source, hsource, ?_⟩
    rw [List.append_assoc]
  | none =>
    rw [Option.map_none, Option.eq_none_iff_forall_not_mem]
    rintro ⟨a, after⟩ hmem
    obtain ⟨source, hsource, heq⟩ := (hread.iff [] _ a after).mp hmem
    rcases List.append_eq_append_iff.mp heq with ⟨front, hsplit, htail⟩ | ⟨front, rfl, -⟩
    · cases front with
      | nil =>
        rw [List.append_nil] at hsplit
        have hwhole := (hread.iff [] t a []).mpr ⟨source, hsource, by rw [hsplit, List.append_nil]⟩
        rw [hfound] at hwhole
        cases hwhole
      | cons d front =>
        obtain ⟨rfl, -⟩ := List.cons.inj htail
        refine h [] source a hsource ?_
        rw [hsplit]
        exact List.mem_append_right _ List.mem_cons_self
    · rw [(hread.iff [] _ a front).mpr ⟨source, hsource, rfl⟩] at hfound
      cases hfound

theorem Reads.pieces_append_cons (hread : Reads read form) {separator : Char}
    (h : ∀ before source a, form before source a → separator ∉ source) (t rest : Text) :
    pieces read (t ++ separator :: rest) =
      pieces read t ++ .plain separator :: pieces read rest := by
  have happend := hread.read_append_cons h
  fun_induction pieces read t with
  | case1 =>
    have hnil : ¬ form.Begins [] [] := by
      rintro ⟨source, a, hstart, hsource⟩
      exact hread.ne_nil _ _ _ hsource (List.prefix_nil.mp hstart)
    have hseparator := happend [] rest
    rw [hread.eq_none hnil] at hseparator
    exact pieces_cons_of_none hseparator
  | case2 c cs hnone ih =>
    have hc := happend (c :: cs) rest
    rw [hnone, List.cons_append] at hc
    rw [List.cons_append, pieces_cons_of_none hc, ih, List.cons_append]
  | case3 c cs a found hsome hlength ih =>
    have hc := happend (c :: cs) rest
    rw [hsome, List.cons_append] at hc
    have hshorter : (found ++ separator :: rest).length ≤ (cs ++ separator :: rest).length := by
      rw [List.length_append, List.length_append]
      exact Nat.add_le_add_right hlength _
    rw [List.cons_append, pieces_cons_of_some hc hshorter, ih, List.cons_append]
  | case4 c cs a found hsome hlength ih =>
    obtain ⟨source, hsource, heq⟩ := (hread.iff [] _ a found).mp hsome
    have hpositive := List.length_pos_iff.mpr (hread.ne_nil _ _ _ hsource)
    have hsum := congrArg List.length heq
    rw [List.length_cons, List.length_append] at hsum
    omega

/-- A character that no written form holds parts what is replaced. -/
theorem Reads.substitute_append_cons (hread : Reads read form) {separator : Char}
    (h : ∀ before source a, form before source a → separator ∉ source) (write : α → Text)
    (t rest : Text) : Text.substitute read write (t ++ separator :: rest) =
      Text.substitute read write t ++ separator :: Text.substitute read write rest := by
  rw [Text.substitute, hread.pieces_append_cons h, List.flatMap_append, List.flatMap_cons]
  rfl

theorem Reads.findAll_append_cons (hread : Reads read form) {separator : Char}
    (h : ∀ before source a, form before source a → separator ∉ source) (t rest : Text) :
    Text.findAll read (t ++ separator :: rest) = Text.findAll read t ++ Text.findAll read rest := by
  rw [Text.findAll, hread.pieces_append_cons h, List.filterMap_append, List.filterMap_cons]
  rfl

theorem Form.clear_of_notMem {sign : Char}
    (h : ∀ before source a, form before source a → sign ∈ source) {t : Text} (ht : sign ∉ t)
    (before : Text) : form.Clear before t [] := by
  rintro front back rfl - ⟨source, a, hstart, hsource⟩
  rw [List.append_nil] at hstart
  exact ht (List.mem_append_right _ (hstart.subset (h _ source a hsource)))

/-- A text without a character that every written form holds stays as it is. -/
theorem Reads.substitute_of_notMem (hread : Reads read form) {sign : Char}
    (h : ∀ before source a, form before source a → sign ∈ source) {t : Text} (ht : sign ∉ t)
    (write : α → Text) : Text.substitute read write t = t :=
  (Divides.last (Form.clear_of_notMem h ht [])).substitute hread write

end Text

end PageCompiler
