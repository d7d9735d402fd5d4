import Mathlib.Data.List.Infix
import PageCompiler.Proofs.References
import PageCompiler.Script.Program

/-!
# Closing tags in texts

A script that stands in a document ends where its text has the closing tag, in small letters or in
capitals, and whatever the script means by it. So a text that goes into a script is safe when it has
no such place.

A place can also come about where two texts meet. Most characters cannot stand in the tag, and such
a character between two texts keeps them apart (`closesScript_append_cons`); and the tag begins with
a `<`, so that a text without one adds nothing in front of another
(`closesScript_append_of_notMem`). With these two, what is written from texts is told by the texts:
strings and values of JSON have a closing tag when the texts in them have one, and replacing
references makes one only of a variable whose name begins like the tag.
-/

namespace PageCompiler

namespace Script

/-- The beginning of the tag that closes a script. -/
def closingTag : Text := "</script"

/-- Whether a text has the beginning of a closing tag, in whatever case. -/
def ClosesScript (t : Text) : Prop := closingTag <:+: t.map Char.toLower

instance (t : Text) : Decidable (ClosesScript t) := inferInstanceAs (Decidable (_ <:+: _))

/-! ## Characters -/

/-- The characters of the closing tag, in both cases. -/
def closingChars : Text := "</scriptSCRIPT"

/-- Whether a character cannot stand in the closing tag. -/
def Separates (c : Char) : Prop := c.toLower ∉ closingTag

instance (c : Char) : Decidable (Separates c) := inferInstanceAs (Decidable (_ ∉ _))

theorem mem_closingChars {c : Char} (h : ¬ Separates c) : c ∈ closingChars := by
  rw [Separates, not_not] at h
  have hcapital : ∀ n : Fin 26, (Char.ofNat (65 + n.val)).toLower ∈ closingTag →
      Char.ofNat (65 + n.val) ∈ closingChars := by decide +kernel
  have hsmall : ∀ d ∈ closingTag, d ∈ closingChars := by decide
  by_cases hc : c.val ≥ 'A'.val ∧ c.val ≤ 'Z'.val
  · have hlow : 65 ≤ c.toNat := UInt32.le_iff_toNat_le.mp hc.1
    have hhigh : c.toNat ≤ 90 := UInt32.le_iff_toNat_le.mp hc.2
    exact of_forall_letter (p := fun d ↦ d.toLower ∈ closingTag → d ∈ closingChars) hcapital hlow
      (by omega) h
  · have hsame : c.toLower = c := dif_neg hc
    rw [hsame] at h
    exact hsmall c h

theorem separates_of_isBlank {c : Char} (h : isBlank c = true) : Separates c := by
  by_contra hc
  have hchars : ∀ d ∈ closingChars, isBlank d = false := by decide +kernel
  exact Bool.false_ne_true ((hchars c (mem_closingChars hc)).symm.trans h)

theorem eq_of_toLower_eq {c d : Char} (hd : d = '<' ∨ d = '/') (h : c.toLower = d) : c = d := by
  have htag : d ∈ closingTag := by rcases hd with rfl | rfl <;> decide
  have hchars : ∀ c ∈ closingChars, c.toLower = d → c = d := by
    rcases hd with rfl | rfl <;> decide
  exact hchars c (mem_closingChars fun hc ↦ hc (h ▸ htag)) h

theorem notMem_of_isWord {t : Text} (h : ∀ c ∈ t, isWord c = true) : '<' ∉ t := fun hmem ↦
  absurd (h _ hmem) (by decide)

/-! ## Where texts meet -/

section Meeting

variable {t u : Text} {c : Char}

theorem ClosesScript.mono (h : ClosesScript t) (hwithin : t <:+: u) : ClosesScript u :=
  List.IsInfix.trans h (hwithin.map _)

/-- The first two characters of the tag have one case only. -/
theorem ClosesScript.signs (h : ClosesScript t) : ['<', '/'] <:+: t := by
  have hsigns : ['<', '/'] <:+: t.map Char.toLower := List.IsInfix.trans (by decide) h
  obtain ⟨signs, hwithin, heq⟩ := List.infix_map_iff.mp hsigns
  obtain ⟨c, signs, rfl, hc, htail⟩ := List.map_eq_cons_iff.mp heq.symm
  obtain ⟨d, signs, rfl, hd, hnil⟩ := List.map_eq_cons_iff.mp htail
  obtain rfl := List.map_eq_nil_iff.mp hnil
  obtain rfl := eq_of_toLower_eq (.inl rfl) hc
  obtain rfl := eq_of_toLower_eq (.inr rfl) hd
  exact hwithin

theorem not_closesScript_of_notMem (h : '<' ∉ t) : ¬ ClosesScript t := fun hcloses ↦
  h (hcloses.signs.subset List.mem_cons_self)

/-- A character that cannot stand in the tag keeps texts apart. -/
theorem closesScript_append_cons (hc : Separates c) :
    ClosesScript (t ++ c :: u) ↔ ClosesScript t ∨ ClosesScript u := by
  -- A part of the tag that reaches over the seam would have the separating character in it.
  have hfront : ∀ {l l' : Text}, closingTag = l ++ l' → l' <+: c.toLower :: u.map Char.toLower →
      l' = [] := by
    intro l l' htag hl'
    rcases List.prefix_cons_iff.mp hl' with rfl | ⟨l', rfl, -⟩
    · rfl
    · exact absurd (by rw [htag]; simp) hc
  rw [ClosesScript, List.map_append, List.map_cons, List.infix_append_iff, List.infix_cons_iff]
  constructor
  · rintro (h | (h | h) | ⟨l, l', htag, hl, hl'⟩)
    · exact .inl h
    · exact absurd (hfront (List.nil_append closingTag).symm h) (by decide)
    · exact .inr h
    · obtain rfl := hfront htag hl'
      rw [List.append_nil] at htag
      rw [← htag] at hl
      exact .inl hl.isInfix
  · rintro (h | h)
    · exact .inl h
    · exact .inr (.inl (.inr h))

theorem closesScript_append_of_notMem (h : '<' ∉ t) :
    ClosesScript (t ++ u) ↔ ClosesScript u := by
  refine ⟨fun hcloses ↦ ?_, fun hcloses ↦ hcloses.mono (List.suffix_append t u).isInfix⟩
  rw [ClosesScript, List.map_append, List.infix_append_iff] at hcloses
  rcases hcloses with hfront | hback | ⟨l, l', htag, hl, hl'⟩
  · exact absurd hfront (not_closesScript_of_notMem h)
  · exact hback
  · cases l with
    | nil =>
      rw [List.nil_append] at htag
      rw [← htag] at hl'
      exact hl'.isInfix
    | cons d l =>
      obtain rfl : d = '<' := (List.cons.inj htag).1.symm
      obtain ⟨e, he, hlower⟩ := List.mem_map.mp (hl.subset List.mem_cons_self)
      exact absurd (eq_of_toLower_eq (.inl rfl) hlower ▸ he) h

theorem closesScript_cons_of_ne (h : c ≠ '<') : ClosesScript (c :: u) ↔ ClosesScript u :=
  closesScript_append_of_notMem (t := [c]) (by simpa using h.symm)

/-- Whether a mark keeps what is before it apart from what is behind, and adds nothing itself. -/
def Parts : Text → Prop
  | [] => False
  | c :: cs => Separates c ∧ '<' ∉ cs

instance : (mark : Text) → Decidable (Parts mark)
  | [] => inferInstanceAs (Decidable False)
  | _ :: _ => inferInstanceAs (Decidable (_ ∧ _))

theorem closesScript_append_mark_append {mark : Text} (h : Parts mark) :
    ClosesScript (t ++ (mark ++ u)) ↔ ClosesScript t ∨ ClosesScript u := by
  cases mark with
  | nil => exact h.elim
  | cons c cs =>
    rw [List.cons_append, closesScript_append_cons h.1, closesScript_append_of_notMem h.2]

theorem closesScript_append_mark {mark : Text} (h : Parts mark) :
    ClosesScript (t ++ mark) ↔ ClosesScript t := by
  have hempty : ¬ ClosesScript [] := by decide
  have happend := closesScript_append_mark_append (t := t) (u := []) h
  rwa [List.append_nil, or_iff_left hempty] at happend

theorem closesScript_join {mark : Text} (hmark : Parts mark) (ts : List Text) :
    ClosesScript (Text.join mark ts) ↔ ∃ t ∈ ts, ClosesScript t := by
  induction ts with
  | nil => simp [Text.join, not_closesScript_of_notMem]
  | cons t ts ih =>
    cases ts with
    | nil => simp [Text.join]
    | cons t' ts =>
      rw [Text.join, closesScript_append_mark_append hmark, List.exists_mem_cons_iff]
      exact or_congr_right ih

theorem closesScript_unlines (ls : List Text) :
    ClosesScript (Text.unlines ls) ↔ ∃ l ∈ ls, ClosesScript l :=
  closesScript_join (by decide) ls

end Meeting

/-! ## Numbers -/

theorem notMem_ofNat (n : Nat) : '<' ∉ Numeral.ofNat n :=
  Text.notMem_toDigits (by decide) (by decide) (by decide) n

theorem notMem_ofInt (i : Int) : '<' ∉ Numeral.ofInt i := by
  cases i with
  | ofNat n => exact notMem_ofNat n
  | negSucc n => simp [Numeral.ofInt, notMem_ofNat]

theorem notMem_shortest (units : Nat) : '<' ∉ (Binary64.shortest units).1 := by
  rw [Binary64.shortest]
  generalize Binary64.searchDecimal units 20 (Binary64.leadingPower units) = found
  intro hmem
  have hdigits := (List.dropWhile_sublist _).subset (List.mem_reverse.mp hmem)
  exact notMem_ofNat found.1 (List.mem_reverse.mp hdigits)

theorem notMem_positional {digits : Text} (h : '<' ∉ digits) (point : Int) :
    '<' ∉ DecimalLayout.positional digits point := by
  have htake : '<' ∉ digits.take point.toNat := fun hmem ↦ h (List.mem_of_mem_take hmem)
  have hdrop : '<' ∉ digits.drop point.toNat := fun hmem ↦ h (List.mem_of_mem_drop hmem)
  rw [DecimalLayout.positional]
  split_ifs <;> simp [h, htake, hdrop]

theorem notMem_scientific {digits : Text} (h : '<' ∉ digits) (layout : DecimalLayout)
    (point : Int) : '<' ∉ layout.scientific digits point := by
  have htake : '<' ∉ digits.take 1 := fun hmem ↦ h (List.mem_of_mem_take hmem)
  have htail : '<' ∉ digits.tail := fun hmem ↦ h (List.mem_of_mem_tail hmem)
  rw [DecimalLayout.scientific]
  split_ifs <;> simp [h, htake, htail, notMem_ofNat]

theorem notMem_write (x : Binary64) : '<' ∉ DecimalLayout.script.write x := by
  have hsign : ∀ negative, '<' ∉ DecimalLayout.sign negative := by decide
  cases x with
  | nan => decide
  | infinite negative =>
    rw [DecimalLayout.write, List.mem_append, not_or]
    exact ⟨hsign negative, by decide⟩
  | finite negative units =>
    rw [DecimalLayout.write, List.mem_append, not_or, DecimalLayout.magnitude]
    refine ⟨hsign negative, ?_⟩
    dsimp only
    split_ifs
    · decide
    · exact notMem_positional (notMem_shortest units) _
    · exact notMem_scientific (notMem_shortest units) _ _

/-! ## Replaced marks -/

/-- Where every closing mark was broken up, there is none: a `<` that is kept has no slash behind
it, since what follows begins with a slash only if it did before. -/
theorem replace_spec (t : Text) :
    ¬ ['<', '/'] <:+: Text.replace "</" "<\\/" t ∧
      ((Text.replace "</" "<\\/" t).head? = some '/' → t.head? = some '/') := by
  induction hlength : t.length using Nat.strong_induction_on generalizing t with
  | _ n ih =>
    subst hlength
    cases t with
    | nil =>
      rw [Text.replace, Text.substitute, Text.pieces]
      decide
    | cons c cs =>
      cases hread : Text.after? "</" (c :: cs) with
      | none =>
        have hcons : Text.replace "</" "<\\/" (c :: cs) = c :: Text.replace "</" "<\\/" cs :=
          Text.substitute_cons_of_none (by rw [hread]; rfl) _
        obtain ⟨hnone, hhead⟩ := ih cs.length (by simp) cs rfl
        rw [hcons, List.infix_cons_iff]
        refine ⟨?_, id⟩
        rintro (hbegins | hwithin)
        -- A slash right behind the `<` was there before, and then the mark would have been found.
        · obtain ⟨rfl, hslash⟩ := List.cons_prefix_cons.mp hbegins
          obtain ⟨rest, hrest⟩ := hslash
          obtain ⟨more, rfl⟩ := List.head?_eq_some_iff.mp (hhead (by rw [← hrest]; rfl))
          cases hread
        · exact hnone hwithin
      | some rest =>
        have hsplit := Text.after?_eq_some_iff.mp hread
        have hrest : rest.length ≤ cs.length := by
          have := congrArg List.length hsplit
          simp at this
          omega
        have hfound : Text.replace "</" "<\\/" (c :: cs) =
            '<' :: '\\' :: '/' :: Text.replace "</" "<\\/" rest := by
          rw [Text.replace, Text.substitute, Text.pieces_cons_of_some (by rw [hread]; rfl) hrest]
          rfl
        obtain ⟨hnone, -⟩ := ih rest.length (by simp; omega) rest rfl
        rw [hfound]
        generalize Text.replace "</" "<\\/" rest = out at hnone
        simp [List.infix_cons_iff, hnone]

theorem not_closesScript_replace (t : Text) : ¬ ClosesScript (Text.replace "</" "<\\/" t) :=
  fun hcloses ↦ (replace_spec t).1 hcloses.signs

/-! ## References -/

/-- Whether a name goes on like the tag after its slash. -/
def BeginsScript (name : Text) : Prop := "script" <+: name.map Char.toLower

instance (name : Text) : Decidable (BeginsScript name) := inferInstanceAs (Decidable (_ <+: _))

/-- Whether the references among pieces are to the given names, and no name ends right before one,
where `front` is the script before the pieces. -/
def ReferencesApart (names : List Text) (front : Text) (pieces : List Lexeme) : Prop :=
  ∀ before n after, pieces = before ++ .reference n :: after →
    n ∈ names ∧ (∀ c ∈ n, isWord c = true) ∧
      ∀ c ∈ (front ++ before.flatMap Lexeme.source).getLast?, isWord c = false

section Pieces

variable {names : List Text} {front l l' : Text} {piece : Lexeme} {pieces : List Lexeme}

theorem ReferencesApart.tail (h : ReferencesApart names front (piece :: pieces)) :
    ReferencesApart names (front ++ piece.source) pieces := by
  rintro before n after rfl
  have hpiece := h (piece :: before) n after rfl
  rwa [List.flatMap_cons, ← List.append_assoc] at hpiece

/-- A script falls into pieces of which the references are apart. -/
theorem exists_pieces (names : List Text) (script : Text) :
    ∃ pieces : List Lexeme, pieces.flatMap Lexeme.source = script ∧
      pieces.flatMap Lexeme.replaced = dereference names script ∧
      ReferencesApart names [] pieces := by
  have hsource : ((lex script).map (Lexeme.settled names)).flatMap Lexeme.source = script := by
    rw [List.flatMap_map]
    simp only [Lexeme.source_settled]
    exact flatMap_source_lexFrom [] false script
  refine ⟨(lex script).map (Lexeme.settled names), hsource, ?_, ?_⟩
  · rw [List.flatMap_map, dereference]
    simp only [Lexeme.replaced_settled]
  · intro before n after hsplit
    have hstart : Agrees [] false none script := fun _ _ ↦ rfl
    have hstands : IsReference names none (marks [] script) _ n :=
      (hasReference_iff names hstart _ n).mp ⟨before, after, hsplit, rfl⟩
    have hbefore : (marks [] script).text.take (before.flatMap Lexeme.source).length =
        before.flatMap Lexeme.source := by
      rw [text_marks, ← hsource, hsplit, List.flatMap_append, List.take_left]
    obtain ⟨-, -, -, -, hname, -⟩ := hstands.spelled
    have hapart := hstands.apart
    rw [hbefore, Option.or_none] at hapart
    exact ⟨hstands.declared, hname.isWord, fun c hc ↦ (hapart c hc).1⟩

theorem exists_isWord_last (htag : closingTag = l ++ l') (hlength : 3 ≤ l.length)
    (hfront : l <:+ front.map Char.toLower) : ∃ c ∈ front.getLast?, isWord c = true := by
  have hchars : ∀ c ∈ closingChars, c.toLower ∈ ("script" : Text) → isWord c = true := by
    decide +kernel
  obtain ⟨l, d, rfl⟩ := (List.eq_nil_or_concat l).resolve_left (by rintro rfl; simp at hlength)
  obtain ⟨more, hmore⟩ := hfront
  rw [List.concat_eq_append, ← List.append_assoc] at hmore
  obtain ⟨s, last, rfl, -, hlast⟩ := List.map_eq_append_iff.mp hmore.symm
  obtain ⟨c, rfl, rfl⟩ := List.map_eq_singleton_iff.mp hlast
  rw [List.concat_eq_append, List.length_append, List.length_singleton] at hlength
  rw [List.concat_eq_append, List.append_assoc, List.singleton_append] at htag
  have hletters : "script" = l.drop 2 ++ c.toLower :: l' := by
    rw [← List.drop_append_of_le_length (by omega), ← htag]
    rfl
  refine ⟨c, by simp, hchars c (mem_closingChars fun hc ↦ hc ?_) ?_⟩
  · rw [htag]
    simp
  · rw [hletters]
    simp

theorem prefix_append_cases {t u : Text} (h : l <+: t ++ u) :
    l <+: t ∨ ∃ l', l = t ++ l' ∧ l' <+: u := by
  rcases List.prefix_or_prefix_of_prefix h (List.prefix_append t u) with hl | ⟨l', rfl⟩
  · exact .inl hl
  · exact .inr ⟨l', rfl, (List.prefix_append_right_inj t).mp h⟩

/-- A name that goes on with the tag where no letter of it was yet begins like the tag. -/
theorem beginsScript_of_prefix {n rest : Text} (hword : ∀ c ∈ n, isWord c = true)
    (htag : closingTag = l ++ l') (hne : l' ≠ []) (hshort : l.length < 3)
    (h : l' <+: (n ++ '.' :: rest).map Char.toLower) : BeginsScript n := by
  -- The point behind the name is not in the tag, so the tag ends before it.
  have hname : l' <+: n.map Char.toLower := by
    rw [List.map_append, List.map_cons] at h
    rcases prefix_append_cases h with hl' | ⟨m, rfl, hm⟩
    · exact hl'
    · rcases List.prefix_cons_iff.mp hm with rfl | ⟨m, rfl, -⟩
      · rw [List.append_nil]
      · have hpoint : '.' ∈ closingTag := by
          rw [htag]
          simp
        exact absurd hpoint (by decide)
  have hfirst : ∀ d, d = '<' ∨ d = '/' → l'.head? ≠ some d := by
    rintro d hd hhead
    obtain ⟨m, rfl⟩ := List.head?_eq_some_iff.mp hhead
    obtain ⟨c, hc, hlower⟩ := List.mem_map.mp (hname.subset List.mem_cons_self)
    have hcword := hword c hc
    rw [eq_of_toLower_eq hd hlower] at hcword
    rcases hd with rfl | rfl <;> exact absurd hcword (by decide)
  -- Neither sign is a word character, so what the name goes on with comes after both of them.
  have hdrop : l' = closingTag.drop l.length := by rw [htag, List.drop_left]
  obtain hlength | hlength | hlength : l.length = 0 ∨ l.length = 1 ∨ l.length = 2 := by omega
  · exact absurd (by rw [hdrop, hlength]; rfl) (hfirst '<' (.inl rfl))
  · exact absurd (by rw [hdrop, hlength]; rfl) (hfirst '/' (.inr rfl))
  · rw [hdrop, hlength] at hname
    exact hname

/-- If a part of the tag ends the script before the pieces and the rest of it begins what becomes of
them, then it begins the pieces too, or a name begins like the tag. The induction is along the
pieces, with the part that was met already growing. -/
theorem prefix_source_of_replaced (hapart : ReferencesApart names front pieces)
    (htag : closingTag = l ++ l') (hfront : l <:+ front.map Char.toLower)
    (h : l' <+: (pieces.flatMap Lexeme.replaced).map Char.toLower) :
    l' <+: (pieces.flatMap Lexeme.source).map Char.toLower ∨ ∃ n ∈ names, BeginsScript n := by
  induction pieces generalizing front l l' with
  | nil => exact .inl h
  | cons piece pieces ih =>
    rw [List.flatMap_cons] at h ⊢
    cases piece with
    | text t =>
      rw [List.map_append] at h ⊢
      rcases prefix_append_cases h with hl' | ⟨m, rfl, hm⟩
      · exact .inl (hl'.trans (List.prefix_append _ _))
      · have hgrown : l ++ t.map Char.toLower <:+ (front ++ t).map Char.toLower := by
          rw [List.map_append]
          obtain ⟨more, hmore⟩ := hfront
          exact ⟨more, by rw [← List.append_assoc, hmore]⟩
        rw [← List.append_assoc] at htag
        refine (ih hapart.tail htag hgrown hm).imp_left fun hsource ↦ ?_
        exact (List.prefix_append_right_inj _).mpr hsource
    | reference n =>
      obtain ⟨hn, hword, hnot⟩ := hapart [] n pieces rfl
      rw [List.flatMap_nil, List.append_nil] at hnot
      by_cases hne : l' = []
      · exact .inl (hne ▸ List.nil_prefix)
      · refine .inr ⟨n, hn, ?_⟩
        -- With a letter of the tag in front, the reference would stand right behind a name.
        have hshort : l.length < 3 := by
          by_contra hlong
          obtain ⟨c, hc, hcword⟩ := exists_isWord_last htag (by omega) hfront
          exact Bool.false_ne_true ((hnot c hc).symm.trans hcword)
        rw [Lexeme.replaced, List.append_assoc] at h
        exact beginsScript_of_prefix hword htag hne hshort h

theorem closesScript_source_of_replaced (hapart : ReferencesApart names front pieces)
    (h : ClosesScript (pieces.flatMap Lexeme.replaced)) :
    ClosesScript (pieces.flatMap Lexeme.source) ∨ ∃ n ∈ names, BeginsScript n := by
  induction pieces generalizing front with
  | nil => exact .inl h
  | cons piece pieces ih =>
    rw [List.flatMap_cons] at h ⊢
    have hrest : ClosesScript (pieces.flatMap Lexeme.replaced) →
        ClosesScript (piece.source ++ pieces.flatMap Lexeme.source) ∨
          ∃ n ∈ names, BeginsScript n := fun h ↦
      (ih hapart.tail h).imp_left fun hsource ↦
        hsource.mono (List.suffix_append _ _).isInfix
    cases piece with
    | reference n =>
      obtain ⟨-, hword, -⟩ := hapart [] n pieces rfl
      have hnotMem : '<' ∉ (Lexeme.reference n).replaced := by
        simp [Lexeme.replaced, notMem_of_isWord hword]
      exact hrest ((closesScript_append_of_notMem hnotMem).mp h)
    | text t =>
      rw [ClosesScript, List.map_append, List.infix_append_iff] at h
      rcases h with hfirst | hback | ⟨l, l', htag, hl, hl'⟩
      · exact .inl (ClosesScript.mono hfirst (List.prefix_append _ _).isInfix)
      · exact hrest hback
      · have hfront : l <:+ (front ++ t).map Char.toLower := by
          rw [List.map_append]
          exact hl.trans (List.suffix_append _ _)
        refine (prefix_source_of_replaced hapart.tail htag hfront hl').imp_left fun hsource ↦ ?_
        rw [ClosesScript, List.map_append, List.infix_append_iff]
        exact .inr (.inr ⟨l, l', htag, hl, hsource⟩)

end Pieces

/-- **Replacing references makes a closing tag only of a name that begins like one.** -/
theorem closesScript_of_dereference {names : List Text} {script : Text}
    (h : ClosesScript (dereference names script)) :
    ClosesScript script ∨ ∃ n ∈ names, BeginsScript n := by
  obtain ⟨pieces, hsource, hreplaced, hapart⟩ := exists_pieces names script
  rw [← hreplaced] at h
  rw [← hsource]
  exact closesScript_source_of_replaced hapart h

end Script

/-! ## Values -/

namespace Json

open Script

/-- A character of a string stands for itself, or for a backslash and something behind it. -/
theorem escapeChar_cases (asciiOnly : Bool) (c : Char) :
    escapeChar asciiOnly c = [c] ∨
      Separates c ∧ ∃ w, escapeChar asciiOnly c = '\\' :: w ∧ '<' ∉ w := by
  by_cases hc : Separates c
  · have hunit : ∀ n, ∃ w, unitEscape n = '\\' :: w ∧ '<' ∉ w := fun n ↦
      ⟨_, rfl, by simp [Text.notMem_hex (by decide : ∀ d : Fin 16, Nat.digitChar d.val ≠ '<')]⟩
    fun_cases escapeChar asciiOnly c with
    | case1 | case2 | case3 | case4 | case5 | case6 | case7 => exact .inr ⟨hc, _, rfl, by decide⟩
    | case8 => exact .inr ⟨hc, hunit _⟩
    | case9 => exact .inl rfl
    | case10 => exact .inr ⟨hc, hunit _⟩
    | case11 =>
      obtain ⟨high, hhigh, hnotMem⟩ := hunit (0xd800 + (c.toNat - 0x10000) / 0x400)
      obtain ⟨low, hlow, hnotMem'⟩ := hunit (0xdc00 + (c.toNat - 0x10000) % 0x400)
      rw [hhigh, hlow]
      exact .inr ⟨hc, _, rfl, by simp [hnotMem, hnotMem']⟩
  · have hchars : ∀ c ∈ closingChars, escapeChar asciiOnly c = [c] := by
      cases asciiOnly <;> decide
    exact .inl (hchars c (mem_closingChars hc))

/-- The induction is over the text, with what came before it in front. -/
theorem closesScript_append_flatMap (asciiOnly : Bool) (front t : Text) :
    ClosesScript (front ++ t.flatMap (escapeChar asciiOnly)) ↔ ClosesScript (front ++ t) := by
  induction t generalizing front with
  | nil => rfl
  | cons c cs ih =>
    rw [List.flatMap_cons]
    rcases escapeChar_cases asciiOnly c with hplain | ⟨hc, w, hescape, hw⟩
    · rw [hplain, ← List.append_assoc, ih, List.append_assoc, List.singleton_append]
    · rw [hescape, List.cons_append, closesScript_append_cons (by decide),
        closesScript_append_of_notMem hw, closesScript_append_cons hc]
      exact or_congr_right (ih [])

theorem closesScript_writeText (asciiOnly : Bool) (t : Text) :
    ClosesScript (writeText asciiOnly t) ↔ ClosesScript t := by
  rw [writeText, List.cons_append, closesScript_cons_of_ne (by decide),
    closesScript_append_mark (by decide)]
  exact closesScript_append_flatMap asciiOnly [] t

mutual

/-- The strings of a value, and the names of members. -/
def texts : Json → List Text
  | null | bool _ | int _ | float _ => []
  | text t => [t]
  | list items => itemTexts items
  | object members => memberTexts members

def itemTexts : List Json → List Text
  | [] => []
  | item :: rest => item.texts ++ itemTexts rest

def memberTexts : List (Text × Json) → List Text
  | [] => []
  | (name, value) :: rest => name :: value.texts ++ memberTexts rest

end

end Json

/-- A style that writes on one line, with marks between texts that keep them apart. -/
structure JsonStyle.OneLine (style : JsonStyle) : Prop where
  indent : style.indent = none
  itemMark : Script.Parts style.itemMark
  nameMark : Script.Parts style.nameMark

namespace Json

open Script

variable {style : JsonStyle}

theorem closesScript_bracket (hstyle : style.OneLine) (depth : Nat) {opening closing : Char}
    (hopening : opening ≠ '<') (hclosing : Parts [closing]) (items : List Text) :
    ClosesScript (bracket style depth opening closing items) ↔ ∃ t ∈ items, ClosesScript t := by
  rw [bracket, hstyle.indent]
  split_ifs with hitems
  · rw [List.isEmpty_iff.mp hitems, closesScript_cons_of_ne hopening]
    have hmark := (closesScript_append_mark (t := []) hclosing).mp
    simpa using fun h ↦ absurd (hmark h) (by decide)
  · rw [List.cons_append, closesScript_cons_of_ne hopening, closesScript_append_mark hclosing,
      closesScript_join hstyle.itemMark]

mutual

/-- **A value has a closing tag when one of its texts has one.** -/
theorem closesScript_writeAt (hstyle : style.OneLine) (depth : Nat) (value : Json) :
    ClosesScript (writeAt style depth value) ↔ ∃ t ∈ value.texts, ClosesScript t := by
  match value with
  | null | bool true | bool false => simp [writeAt, texts, not_closesScript_of_notMem]
  | int i => simp [writeAt, texts, not_closesScript_of_notMem, notMem_ofInt]
  | float x => simp [writeAt, texts, not_closesScript_of_notMem, notMem_write]
  | text t => simp [writeAt, texts, closesScript_writeText]
  | list items =>
    rw [writeAt, texts, closesScript_bracket hstyle depth (by decide) (by decide)]
    exact closesScript_writeItems hstyle (depth + 1) items
  | object members =>
    rw [writeAt, texts, closesScript_bracket hstyle depth (by decide) (by decide)]
    exact closesScript_writeMembers hstyle (depth + 1) members

theorem closesScript_writeItems (hstyle : style.OneLine) (depth : Nat) (items : List Json) :
    (∃ t ∈ writeItems style depth items, ClosesScript t) ↔
      ∃ t ∈ itemTexts items, ClosesScript t := by
  match items with
  | [] => simp [writeItems, itemTexts]
  | item :: rest =>
    have hitem := closesScript_writeAt hstyle depth item
    have hrest := closesScript_writeItems hstyle depth rest
    simp only [writeItems, itemTexts, List.exists_mem_cons_iff, List.mem_append, or_and_right,
      exists_or, hitem, hrest]

theorem closesScript_writeMembers (hstyle : style.OneLine) (depth : Nat)
    (members : List (Text × Json)) :
    (∃ t ∈ writeMembers style depth members, ClosesScript t) ↔
      ∃ t ∈ memberTexts members, ClosesScript t := by
  match members with
  | [] => simp [writeMembers, memberTexts]
  | (name, value) :: rest =>
    have hvalue := closesScript_writeAt hstyle depth value
    have hrest := closesScript_writeMembers hstyle depth rest
    simp only [writeMembers, memberTexts, List.exists_mem_cons_iff, List.mem_append, or_and_right,
      exists_or, List.append_assoc, List.cons_append, closesScript_writeText, hvalue, hrest,
      closesScript_append_mark_append hstyle.nameMark, or_assoc]

end

end Json

end PageCompiler
