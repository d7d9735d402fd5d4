import PageCompiler.Property.Extract
import PageCompiler.Proofs.Texts

/-!
# Props types

A component says what can be set on it by an interface or a type whose name ends with `Props`. Its
members are found in three steps: the text between the braces, the pieces between semicolons and
line feeds, and the name, the mark and the type in a piece. Pieces that are no members are left out,
and of several members of one name the first counts.

Members are written here (`Property.Declares`) in any layout that the steps allow: blanks around the
colon, and between two members any row of blanks and semicolons with a semicolon or a line feed in
it. What is found in such a text is what was written, whatever else than separators the types hold:
colons, question marks, arrows, dots and blanks. A table of property types, for which the same text
is searched once more, needs a dot in front of its brace, and there is none.
-/

namespace PageCompiler

variable {c : Char} {t : Text}

namespace Property

/-! ## Written members -/

/-- A member of a props type. Its type is trimmed and not empty, and has nothing in it that divides
members or ends their list. -/
structure Member where
  name : Text
  optional : Bool
  type : Text
  isName : Text.IsName name
  type_ne_nil : type ≠ []
  /-- No blanks stand at either end of the type. -/
  trim_type : Text.trim type = type
  /-- The type does not divide members. -/
  plain_type : ∀ c ∈ type, c ∉ [';', ',', '\x7b', '\x7d', '\n']

def Member.property (m : Member) : Property :=
  { name := m.name, type := m.type, required := !m.optional }

/-- The members whose name no member before has. -/
def firsts (ms : List Member) : List Member :=
  (ms.zipIdx.filter fun entry ↦ entry.1.name ∉ (ms.take entry.2).map Member.name).map Prod.fst

/-- Whether a character divides members. -/
def Divides (c : Char) : Prop := c = ';' ∨ c = '\n'

instance (c : Char) : Decidable (Divides c) := inferInstanceAs (Decidable (_ ∨ _))

/-- Whether a text may stand around the members: blanks and semicolons. -/
def IsMargin (t : Text) : Prop := ∀ c ∈ t, isBlank c = true ∨ Divides c

instance (t : Text) : Decidable (IsMargin t) := inferInstanceAs (Decidable (∀ c ∈ t, _))

/-- Whether a text may stand around the colon of a member: blanks, but no line feed. -/
def IsSpace (t : Text) : Prop := ∀ c ∈ t, isBlank c = true ∧ ¬Divides c

instance (t : Text) : Decidable (IsSpace t) := inferInstanceAs (Decidable (∀ c ∈ t, _))

/-- Whether a text is a member as it can be written: the name, the mark of an optional member, a
colon and the type. -/
inductive Member.Writes (m : Member) : Text → Prop
  /-- Blanks may stand around the colon and behind the type. -/
  | colon {before behind last : Text} (hbefore : IsSpace before) (hbehind : IsSpace behind)
    (hlast : IsSpace last) :
    Writes m (m.name ++ ((if m.optional then ['?'] else []) ++ (before ++
      ':' :: (behind ++ m.type ++ last))))

/-- Whether a text lists members. -/
inductive Lists : List Member → Text → Prop
  | nil : Lists [] []
  /-- The last member, with nothing behind it. -/
  | last {m : Member} {entry : Text} (written : m.Writes entry) : Lists [m] entry
  /-- A member, what divides it from the others, and the others. -/
  | cons {m : Member} {ms : List Member} {entry margin rest : Text} {c : Char}
    (written : m.Writes entry) (divides : Divides c) (isMargin : IsMargin margin)
    (others : Lists ms rest) : Lists (m :: ms) (entry ++ c :: (margin ++ rest))

/-- Whether a text may stand in front of the braces of a props type. -/
inductive Heads : Text → Prop
  /-- The beginning of an interface. -/
  | interface {gap stem space : Text} (hgap : gap ≠ [] ∧ ∀ c ∈ gap, isBlank c = true)
    (hstem : ∀ c ∈ stem, isWord c = true) (hspace : ∀ c ∈ space, isBlank c = true) :
    Heads ("interface" ++ (gap ++ (stem ++ "Props" ++ space)))
  /-- The beginning of a type. -/
  | type {gap stem space space' : Text} (hgap : gap ≠ [] ∧ ∀ c ∈ gap, isBlank c = true)
    (hstem : ∀ c ∈ stem, isWord c = true) (hspace : ∀ c ∈ space, isBlank c = true)
    (hspace' : ∀ c ∈ space', isBlank c = true) :
    Heads ("type" ++ (gap ++ (stem ++ "Props" ++ (space ++ '=' :: space'))))

/-- Whether a text is the declaration of a props type with the given members. -/
inductive Declares (ms : List Member) : Text → Prop
  /-- The members stand between braces. -/
  | braces {header margin body : Text} (hheader : Heads header) (hmargin : IsMargin margin)
    (hbody : Lists ms body) :
    Declares ms (header ++ '\x7b' :: (margin ++ body ++ ['\x7d']))

/-! ## Pieces between separators -/

/-- The pieces between semicolons and line feeds. -/
def chunks (t : Text) : List Text := (Text.splitOn ';' t).flatMap (Text.splitOn '\n')

theorem chunks_cons_of_divides (h : Divides c) (t : Text) : chunks (c :: t) = [] :: chunks t := by
  obtain ⟨piece, pieces, hsplit⟩ := List.exists_cons_of_ne_nil (Text.splitOn_ne_nil ';' t)
  rcases h with rfl | rfl
  · rw [chunks, Text.splitOn, if_pos rfl]
    rfl
  · rw [chunks, chunks, Text.splitOn, if_neg (by decide), hsplit]
    rfl

theorem chunks_cons_of_not_divides (h : ¬Divides c) {piece : Text} {pieces : List Text}
    (hchunks : chunks t = piece :: pieces) : chunks (c :: t) = (c :: piece) :: pieces := by
  obtain ⟨first, rest, hsplit⟩ := List.exists_cons_of_ne_nil (Text.splitOn_ne_nil ';' t)
  obtain ⟨line, more, hlines⟩ := List.exists_cons_of_ne_nil (Text.splitOn_ne_nil '\n' first)
  obtain ⟨hsemicolon, hlineFeed⟩ := not_or.mp h
  rw [chunks, hsplit, List.flatMap_cons, hlines, List.cons_append] at hchunks
  obtain ⟨rfl, rfl⟩ := List.cons.inj hchunks
  rw [chunks, Text.splitOn, if_neg hsemicolon, hsplit, List.flatMap_cons, Text.splitOn,
    if_neg hlineFeed, hlines]
  rfl

theorem exists_chunks (t : Text) : ∃ piece pieces, chunks t = piece :: pieces := by
  induction t with
  | nil => exact ⟨[], [], rfl⟩
  | cons c t ih =>
    obtain ⟨piece, pieces, hchunks⟩ := ih
    by_cases hc : Divides c
    · exact ⟨[], _, chunks_cons_of_divides hc t⟩
    · exact ⟨_, _, chunks_cons_of_not_divides hc hchunks⟩

theorem chunks_append_cons (hc : Divides c) (t u : Text) :
    chunks (t ++ c :: u) = chunks t ++ chunks u := by
  induction t with
  | nil => exact chunks_cons_of_divides hc u
  | cons d t ih =>
    obtain ⟨piece, pieces, hchunks⟩ := exists_chunks t
    rw [List.cons_append]
    by_cases hd : Divides d
    · rw [chunks_cons_of_divides hd, chunks_cons_of_divides hd, ih, List.cons_append]
    · rw [hchunks, List.cons_append] at ih
      rw [chunks_cons_of_not_divides hd ih, chunks_cons_of_not_divides hd hchunks,
        List.cons_append]

theorem chunks_of_not_divides (h : ∀ c ∈ t, ¬Divides c) : chunks t = [t] := by
  induction t with
  | nil => rfl
  | cons c t ih =>
    obtain ⟨hc, ht⟩ := List.forall_mem_cons.mp h
    exact chunks_cons_of_not_divides hc (ih ht)

theorem members_eq (t : Text) : members t = (chunks t).filterMap member? := rfl

theorem members_append_cons (hc : Divides c) (t u : Text) :
    members (t ++ c :: u) = members t ++ members u := by
  rw [members_eq, chunks_append_cons hc, List.filterMap_append, members_eq, members_eq]

theorem members_append_of_isMargin {margin : Text} (h : IsMargin margin) (t : Text) :
    members (margin ++ t) = members t := by
  induction margin with
  | nil => rfl
  | cons c margin ih =>
    obtain ⟨hc, hmargin⟩ := List.forall_mem_cons.mp h
    rw [← ih hmargin, List.cons_append]
    by_cases hdivides : Divides c
    · exact members_append_cons hdivides [] (margin ++ t)
    · obtain ⟨piece, pieces, hchunks⟩ := exists_chunks (margin ++ t)
      have hblank : member? (c :: piece) = member? piece := by
        rw [member?, Text.trimLeft_cons_of_isBlank (hc.resolve_right hdivides), member?]
      rw [members_eq, chunks_cons_of_not_divides hdivides hchunks, members_eq, hchunks,
        List.filterMap_cons, List.filterMap_cons, hblank]

/-! ## Reading a member -/

theorem IsMargin.plain {margin : Text} (h : IsMargin margin) :
    ∀ c ∈ margin, c ≠ '\x7b' ∧ c ≠ '\x7d' := by
  intro c hc
  constructor
  · rintro rfl
    exact absurd (h _ hc) (by decide)
  · rintro rfl
    exact absurd (h _ hc) (by decide)

/-- What follows the name of a member, or its mark, begins with a blank or the colon. -/
theorem head_space_colon {before tail : Text} (h : IsSpace before)
    (hc : (before ++ ':' :: tail).head? = some c) : isBlank c = true ∨ c = ':' := by
  cases before with
  | nil => exact .inr (Option.some.inj hc).symm
  | cons d before =>
    obtain rfl := Option.some.inj hc
    exact .inl (h d List.mem_cons_self).1

theorem not_isWord_of_head (h : isBlank c = true ∨ c = ':') : isWord c = false := by
  rcases h with hblank | rfl
  · cases hword : isWord c with
    | false => rfl
    | true => exact absurd ((isBlank_of_isWord hword).symm.trans hblank) Bool.false_ne_true
  · decide

theorem member?_append {name mark before tail : Text} (hname : Text.IsName name)
    (hbefore : IsSpace before) (hmark : mark = ['?'] ∨ mark = []) (hcomma : ',' ∉ tail)
    (htail : tail ≠ []) :
    member? (name ++ (mark ++ (before ++ ':' :: tail))) =
      some { name, type := Text.trim tail, required := mark.isEmpty } := by
  have hcolon : Text.after? [':'] (Text.trimLeft (before ++ ':' :: tail)) = some tail := by
    rw [Text.trimLeft_append_of_isBlank fun c hc ↦ (hbefore c hc).1,
      Text.trimLeft_cons_of_not_isBlank (by decide)]
    exact Text.after?_append [':'] tail
  have htype : tail.takeWhile (· != ',') = tail :=
    List.takeWhile_eq_self_iff.mpr fun c hc ↦ bne_iff_ne.mpr fun heq ↦ hcomma (heq ▸ hc)
  have hsome : tail.isEmpty = false := by simpa using htail
  have hword : Text.word? (name ++ (mark ++ (before ++ ':' :: tail))) =
      some (name, mark ++ (before ++ ':' :: tail)) := by
    refine hname.word?_append fun c hc ↦ ?_
    rcases hmark with rfl | rfl
    · obtain rfl := Option.some.inj hc
      decide
    · exact not_isWord_of_head (head_space_colon hbefore hc)
  have hoptional : Text.startsWith (mark ++ (before ++ ':' :: tail)) "?" = !mark.isEmpty := by
    rcases hmark with rfl | rfl
    · rfl
    · rw [List.nil_append, List.isEmpty_nil, Bool.not_true, Bool.eq_false_iff, ne_eq,
        Text.startsWith_iff]
      rintro ⟨rest, hrest⟩
      have hhead : (before ++ ':' :: tail).head? = some '?' := hrest ▸ rfl
      exact absurd (head_space_colon hbefore hhead) (by decide)
  have hdrop : (if !mark.isEmpty then (mark ++ (before ++ ':' :: tail)).drop 1 else
      mark ++ (before ++ ':' :: tail)) = before ++ ':' :: tail := by
    rcases hmark with rfl | rfl <;> rfl
  rw [member?, hname.trimLeft_append]
  simp only [hword, Option.bind_eq_bind, Option.bind_some, hoptional, hdrop, hcolon, htype, hsome,
    Bool.not_not]
  rfl

namespace Member.Writes

variable {m : Member} {entry : Text}

theorem member? (h : m.Writes entry) : Property.member? entry = some m.property := by
  cases h with
  | @colon before behind last hbefore hbehind hlast =>
    have hcomma : ',' ∉ behind ++ m.type ++ last := by
      simp only [List.mem_append, not_or]
      refine ⟨⟨fun hmem ↦ ?_, fun hmem ↦ ?_⟩, fun hmem ↦ ?_⟩
      · exact absurd (hbehind _ hmem).1 (by decide)
      · exact m.plain_type _ hmem (by decide)
      · exact absurd (hlast _ hmem).1 (by decide)
    have hmark : (if m.optional then ['?'] else []) = ['?'] ∨
        (if m.optional then ['?'] else []) = ([] : Text) := by
      cases m.optional <;> simp
    rw [member?_append m.isName hbefore hmark hcomma (by simp [m.type_ne_nil]),
      Text.trim_append_of_isBlank (fun c hc ↦ (hbehind c hc).1) (fun c hc ↦ (hlast c hc).1),
      m.trim_type, property]
    cases m.optional <;> rfl

theorem plain (h : m.Writes entry) : ∀ c ∈ entry, ¬Divides c ∧ c ≠ '\x7b' ∧ c ≠ '\x7d' := by
  cases h with
  | colon hbefore hbehind hlast =>
    have hspace : ∀ {t : Text}, IsSpace t → ∀ c ∈ t, ¬Divides c ∧ c ≠ '\x7b' ∧ c ≠ '\x7d' := by
      intro t ht c hc
      obtain ⟨hblank, hdivides⟩ := ht c hc
      refine ⟨hdivides, ?_, ?_⟩ <;> rintro rfl <;> exact absurd hblank (by decide)
    have hname : ∀ c ∈ m.name, ¬Divides c ∧ c ≠ '\x7b' ∧ c ≠ '\x7d' := by
      intro c hc
      have hword := m.isName.2 c hc
      refine ⟨?_, ?_, ?_⟩
      · rintro (rfl | rfl) <;> exact absurd hword (by decide)
      · rintro rfl
        exact absurd hword (by decide)
      · rintro rfl
        exact absurd hword (by decide)
    have htype : ∀ c ∈ m.type, ¬Divides c ∧ c ≠ '\x7b' ∧ c ≠ '\x7d' := by
      intro c hc
      have hplain := m.plain_type c hc
      simp only [List.mem_cons, not_or] at hplain
      exact ⟨not_or.mpr ⟨hplain.1, hplain.2.2.2.2.1⟩, hplain.2.2.1, hplain.2.2.2.1⟩
    have hmark : ∀ c ∈ (if m.optional then ['?'] else ([] : Text)),
        ¬Divides c ∧ c ≠ '\x7b' ∧ c ≠ '\x7d' := by
      cases m.optional <;> decide
    simp only [List.forall_mem_append, List.forall_mem_cons]
    exact ⟨hname, hmark, hspace hbefore, by decide, ⟨hspace hbehind, htype⟩, hspace hlast⟩

theorem members_eq (h : m.Writes entry) : members entry = [m.property] := by
  rw [members, ← chunks, chunks_of_not_divides fun c hc ↦ (h.plain c hc).1,
    List.filterMap_cons_some h.member?]
  rfl

end Member.Writes

namespace Lists

variable {ms : List Member} {body : Text}

theorem members_eq_map (h : Lists ms body) : members body = ms.map Member.property := by
  induction h with
  | nil => rfl
  | last hwritten => exact hwritten.members_eq
  | cons hwritten hdivides hmargin _ ih =>
    rw [members_append_cons hdivides, hwritten.members_eq, members_append_of_isMargin hmargin, ih]
    rfl

theorem plain (h : Lists ms body) : ∀ c ∈ body, c ≠ '\x7b' ∧ c ≠ '\x7d' := by
  induction h with
  | nil => exact List.forall_mem_nil _
  | last hwritten => exact fun c hc ↦ (hwritten.plain c hc).2
  | cons hwritten hdivides hmargin _ ih =>
    simp only [List.forall_mem_append, List.forall_mem_cons]
    refine ⟨fun c hc ↦ (hwritten.plain c hc).2, ?_, hmargin.plain, ih⟩
    rcases hdivides with rfl | rfl <;> decide

end Lists

/-! ## Names that come again -/

theorem firsts_concat (ms : List Member) (m : Member) :
    firsts (ms ++ [m]) = firsts ms ++ if m.name ∈ ms.map Member.name then [] else [m] := by
  rw [firsts, List.zipIdx_append, List.filter_append, List.map_append]
  congr 1
  · -- Which members come before one of the others is not changed by a member at the end.
    refine congrArg (List.map Prod.fst) (List.filter_congr fun entry hentry ↦ ?_)
    have hindex : entry.2 < ms.length := by simpa using (List.mem_zipIdx hentry).2.1
    rw [List.take_append_of_le_length hindex.le]
  · rw [List.zipIdx_singleton, Nat.zero_add, List.filter_singleton, List.take_left]
    split_ifs <;> simp_all

theorem mem_names_firsts {ms : List Member} {name : Text} :
    name ∈ (firsts ms).map Member.name ↔ name ∈ ms.map Member.name := by
  induction ms using List.reverseRecOn with
  | nil => rfl
  | append_singleton ms m ih =>
    rw [firsts_concat, List.map_append, List.map_append, List.mem_append, List.mem_append, ih]
    split_ifs with hmem
    · rw [List.map_nil, List.map_singleton, List.mem_singleton, or_iff_left List.not_mem_nil]
      refine (or_iff_left_of_imp ?_).symm
      rintro rfl
      exact hmem
    · rfl

theorem distinct_concat (ps : List Property) (p : Property) :
    distinct (ps ++ [p]) =
      if (distinct ps).any (·.name == p.name) then distinct ps else distinct ps ++ [p] := by
  rw [distinct, List.foldl_append]
  rfl

theorem distinct_map_property (ms : List Member) :
    distinct (ms.map Member.property) = (firsts ms).map Member.property := by
  induction ms using List.reverseRecOn with
  | nil => rfl
  | append_singleton ms m ih =>
    have hany : ((firsts ms).map Member.property).any (·.name == m.property.name) = true ↔
        m.name ∈ ms.map Member.name := by
      rw [← mem_names_firsts, List.any_map, List.any_eq_true, List.mem_map]
      exact exists_congr fun first ↦ and_congr_right fun _ ↦ beq_iff_eq
    rw [List.map_append, List.map_singleton, distinct_concat, ih, firsts_concat, List.map_append]
    by_cases hmem : m.name ∈ ms.map Member.name
    · rw [if_pos (hany.mpr hmem), if_pos hmem, List.map_nil, List.append_nil]
    · rw [if_neg (hany.not.mpr hmem), if_neg hmem, List.map_singleton]

/-! ## Reading a declaration -/

theorem readBraces_append {inside : Text} (h : '\x7d' ∉ inside) (rest : Text) :
    readBraces ('\x7b' :: (inside ++ '\x7d' :: rest)) = some (inside, rest) :=
  Text.upTo?_append_cons h rest

section Header

variable {gap stem space : Text} (hgap : gap ≠ [] ∧ ∀ c ∈ gap, isBlank c = true)
  (hstem : ∀ c ∈ stem, isWord c = true) (hspace : ∀ c ∈ space, isBlank c = true)

include hgap hstem hspace

theorem readTypeName_append (hblank : isBlank c = false) (hword : isWord c = false) (tail : Text) :
    readTypeName (gap ++ (stem ++ "Props" ++ (space ++ c :: tail))) =
      some (stem ++ "Props", c :: tail) := by
  have hname : Text.IsName (stem ++ "Props") :=
    ⟨by simp, List.forall_mem_append.mpr ⟨hstem, by decide⟩⟩
  have hblanks : Text.blanks? (gap ++ (stem ++ "Props" ++ (space ++ c :: tail))) =
      some (stem ++ "Props" ++ (space ++ c :: tail)) := by
    obtain ⟨first, gap, rfl⟩ := List.exists_cons_of_ne_nil hgap.1
    obtain ⟨hfirst, hgap⟩ := List.forall_mem_cons.mp hgap.2
    rw [List.cons_append, Text.blanks?, if_pos hfirst, Text.trimLeft_append_of_isBlank hgap,
      hname.trimLeft_append]
  have hread : Text.word? (stem ++ "Props" ++ (space ++ c :: tail)) =
      some (stem ++ "Props", space ++ c :: tail) := by
    refine hname.word?_append fun d hd ↦ ?_
    cases space with
    | nil =>
      obtain rfl := Option.some.inj hd
      exact hword
    | cons first space =>
      obtain rfl := Option.some.inj hd
      exact not_isWord_of_head (.inl (hspace _ List.mem_cons_self))
  have hends : Text.endsWith (stem ++ "Props") "Props" = true :=
    Text.endsWith_iff.mpr (List.suffix_append _ _)
  rw [readTypeName, hblanks]
  simp only [Option.bind_eq_bind, Option.bind_some, hread, hends, if_true,
    Text.trimLeft_append_of_isBlank hspace, Text.trimLeft_cons_of_not_isBlank hblank]

end Header

namespace Heads

variable {header : Text}

theorem plain (h : Heads header) : ∀ c ∈ header, c ≠ '.' ∧ c ≠ '\x7b' := by
  have hword : ∀ c, isWord c = true → c ≠ '.' ∧ c ≠ '\x7b' := by
    intro c hc
    refine ⟨?_, ?_⟩ <;> rintro rfl <;> exact absurd hc (by decide)
  have hblank : ∀ c, isBlank c = true → c ≠ '.' ∧ c ≠ '\x7b' := by
    intro c hc
    refine ⟨?_, ?_⟩ <;> rintro rfl <;> exact absurd hc (by decide)
  cases h with
  | interface hgap hstem hspace =>
    simp only [List.forall_mem_append]
    exact ⟨by decide, fun c hc ↦ hblank c (hgap.2 c hc),
      ⟨fun c hc ↦ hword c (hstem c hc), by decide⟩, fun c hc ↦ hblank c (hspace c hc)⟩
  | type hgap hstem hspace hspace' =>
    simp only [List.forall_mem_append, List.forall_mem_cons]
    exact ⟨by decide, fun c hc ↦ hblank c (hgap.2 c hc),
      ⟨fun c hc ↦ hword c (hstem c hc), by decide⟩, fun c hc ↦ hblank c (hspace c hc), by decide,
      fun c hc ↦ hblank c (hspace' c hc)⟩

/-- With braces behind it, the whole text is read as one props type. -/
theorem readPropsType_append (h : Heads header) {inside : Text} (hinside : '\x7d' ∉ inside) :
    readPropsType (header ++ '\x7b' :: (inside ++ ['\x7d'])) = some (inside, []) := by
  cases h with
  | interface hgap hstem hspace =>
    simp only [List.append_assoc, readPropsType, Text.after?_append]
    simp only [← List.append_assoc _ "Props".toList, Option.bind_eq_bind, Option.bind_some,
      readTypeName_append hgap hstem hspace (c := '\x7b') (by decide) (by decide)]
    exact readBraces_append hinside []
  | type hgap hstem hspace hspace' =>
    have hother : ∀ rest : Text, Text.after? "interface" ("type" ++ rest) = none := fun _ ↦ rfl
    have hsign : ∀ rest : Text, Text.after? ['='] ('=' :: rest) = some rest :=
      Text.after?_append ['=']
    simp only [List.append_assoc, List.cons_append, readPropsType, hother, Text.after?_append]
    simp only [← List.append_assoc _ "Props".toList, Option.bind_eq_bind, Option.bind_some, hsign,
      readTypeName_append hgap hstem hspace (c := '=') (by decide) (by decide),
      Text.trimLeft_append_of_isBlank hspace', Text.trimLeft_cons_of_not_isBlank
        (show isBlank '\x7b' = false by decide)]
    exact readBraces_append hinside []

end Heads

/-! ## No tables of property types -/

/-- A table of property types has a dot in front of its brace. -/
theorem exists_of_readTypeTable {table : Text × Text} (h : readTypeTable t = some table) :
    ∃ front rest, t = front ++ '\x7b' :: rest ∧ '.' ∈ front := by
  simp only [readTypeTable, readBraces, Option.bind_eq_bind, Option.bind_eq_some_iff,
    Prod.exists] at h
  obtain ⟨name, afterName, hname, afterMark, hmark, afterSign, hsign, afterBrace, hbrace, -⟩ := h
  obtain ⟨blanks, hblanks, -⟩ := Text.exists_append_trimLeft afterMark
  obtain ⟨blanks', hblanks', -⟩ := Text.exists_append_trimLeft afterSign
  rw [Text.after?_eq_some_iff] at hmark hsign hbrace
  refine ⟨name ++ (".propTypes" ++ (blanks ++ ('=' :: blanks'))), afterBrace, ?_, ?_⟩
  · rw [Text.append_of_run? hname, hmark, hblanks, hsign, hblanks', hbrace]
    simp
  · exact List.mem_append_right _ (List.mem_append_left _ (by decide))

theorem ofTypeTables_of_noDot {front rest : Text} (hdot : '.' ∉ front) (hfront : '\x7b' ∉ front)
    (hrest : '\x7b' ∉ rest) : ofTypeTables (front ++ '\x7b' :: rest) = [] := by
  have hnone : ∀ u v, front ++ '\x7b' :: rest = u ++ v → v ≠ [] →
      readTypeTable (v ++ []) = none := by
    intro u v heq _
    by_contra hread
    obtain ⟨table, htable⟩ := Option.ne_none_iff_exists'.mp hread
    obtain ⟨before, after, hv, hmem⟩ := exists_of_readTypeTable htable
    rw [List.append_nil] at hv
    rw [hv, ← List.append_assoc] at heq
    obtain ⟨rfl, -⟩ := (List.append_cons_inj_of_notMem hfront hrest).mp heq
    exact hdot (List.mem_append_right _ hmem)
  have hfind := Text.findAll_append_of_none hnone
  rw [List.append_nil] at hfind
  rw [ofTypeTables, hfind, Text.findAll, Text.pieces]
  rfl

/-! ## Declared properties -/

namespace Declares

variable {ms : List Member} {source : Text}

theorem ofPropsTypes_eq (h : Declares ms source) :
    ofPropsTypes source = ms.map Member.property := by
  cases h with
  | @braces header margin body hheader hmargin hbody =>
    have hinside : '\x7d' ∉ margin ++ body := by
      rw [List.mem_append, not_or]
      exact ⟨fun hmem ↦ (hmargin.plain _ hmem).2 rfl, fun hmem ↦ (hbody.plain _ hmem).2 rfl⟩
    have hread := hheader.readPropsType_append hinside
    obtain ⟨c, cs, hsource⟩ := List.exists_cons_of_ne_nil
      (List.append_ne_nil_of_right_ne_nil header
        (List.cons_ne_nil '\x7b' (margin ++ body ++ ['\x7d'])))
    rw [hsource] at hread
    rw [ofPropsTypes, hsource, Text.findAll, Text.pieces_cons_of_some hread (Nat.zero_le _),
      Text.pieces, ← hbody.members_eq_map, ← members_append_of_isMargin hmargin]
    exact List.append_nil _

theorem ofTypeTables_eq (h : Declares ms source) : ofTypeTables source = [] := by
  cases h with
  | braces hheader hmargin hbody =>
    refine ofTypeTables_of_noDot (fun hmem ↦ (hheader.plain _ hmem).1 rfl)
      (fun hmem ↦ (hheader.plain _ hmem).2 rfl) ?_
    simp only [List.mem_append, not_or]
    exact ⟨⟨fun hmem ↦ (hmargin.plain _ hmem).1 rfl, fun hmem ↦ (hbody.plain _ hmem).1 rfl⟩,
      by decide⟩

end Declares

/-- The properties of a component with a props type are the members of the type in their order, of
every name the first. They have the types that are written, and are required without the mark. -/
theorem properties_of_declares {ms : List Member} {source : Text} (h : Declares ms source)
    {framework : Framework} (hframework : framework ∈ [.react, .solid, .unknown]) :
    framework.properties source = (firsts ms).map Member.property := by
  have htypes : framework.properties source = distinct (ofPropsTypes source) := by
    simp only [List.mem_cons, List.not_mem_nil, or_false] at hframework
    rcases hframework with rfl | rfl | rfl
    · rw [Framework.properties, h.ofTypeTables_eq, List.append_nil]
    · rfl
    · rfl
  rw [htypes, h.ofPropsTypes_eq, distinct_map_property]

def titleMember : Member where
  name := "title"
  optional := false
  type := "string"
  isName := by decide
  type_ne_nil := by decide
  trim_type := by decide
  plain_type := by decide

/-- An optional member whose type has a colon, a question mark, an arrow and dots in it. -/
def onPickMember : Member where
  name := "onPick"
  optional := true
  type := "(at?: Row.Key) => A.propTypes"
  isName := by decide
  type_ne_nil := by decide
  trim_type := by decide
  plain_type := by decide

/-- A member with a name that was there before. -/
def otherTitleMember : Member where
  name := "title"
  optional := true
  type := "number"
  isName := by decide
  type_ne_nil := by decide
  trim_type := by decide
  plain_type := by decide

/-- A props type with members of all kinds. -/
def cardProps : Text :=
  "type CardProps = \x7b\n  title : string;\n  onPick?: (at?: Row.Key) => A.propTypes" ++
    "\n title?:number\x7d"

theorem declares_cardProps : Declares [titleMember, onPickMember, otherTitleMember] cardProps := by
  have hnone : IsSpace [] := by decide
  have hspace : IsSpace [' '] := by decide
  have hmargin : IsMargin [' '] := by decide
  have hwide : IsMargin ['\n', ' ', ' '] := by decide
  have hlists := Lists.cons (m := titleMember) (.colon hspace hspace hnone) (.inl rfl) hwide
    (.cons (m := onPickMember) (.colon hnone hspace hnone) (.inr rfl) hmargin
      (.last (m := otherTitleMember) (.colon hnone hnone hnone)))
  have hgap : ([' '] : Text) ≠ [] ∧ ∀ c ∈ [' '], isBlank c = true := by decide
  have hstem : ∀ c ∈ ("Card" : Text), isWord c = true := by decide
  exact .braces (.type hgap hstem hgap.2 hgap.2) hwide hlists

theorem properties_of_cardProps :
    Framework.react.properties cardProps =
      [{ name := "title", type := "string", required := true },
        { name := "onPick", type := "(at?: Row.Key) => A.propTypes", required := false }] :=
  properties_of_declares declares_cardProps (by decide)

end Property

end PageCompiler
