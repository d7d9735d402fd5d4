import PageCompiler.Proofs.ClosingTags
import PageCompiler.Proofs.JsonReading

/-!
# Metadata in the program

The program declares the metadata of its page as an object in JSON, in which every closing mark
`</` was broken up by a backslash. That is done on the written text and not on the values, so it has
to be shown that the mark never stands outside of a string nor in part of an escape: then what was
written as `</` is written as `<\/`, and that is read as the same two characters.

A mark is broken up where its two characters meet, so breaking up the parts of a text is breaking up
the text, unless one part ends with the first character and the next begins with the second
(`brokenUp_append`). What stands between the strings of an object has neither of the two, and an
escape has none of them either.
-/

namespace PageCompiler

variable {t : Text} {c : Char}

namespace Script

/-! ## Breaking up marks -/

/-- A text in which every closing mark is broken up. -/
def brokenUp (t : Text) : Text := Text.replace "</" "<\\/" t

theorem brokenUp_nil : brokenUp [] = [] := by
  rw [brokenUp, Text.replace, Text.substitute, Text.pieces, List.flatMap_nil]

theorem brokenUp_cons_of_none (h : Text.after? "</" (c :: t) = none) :
    brokenUp (c :: t) = c :: brokenUp t :=
  Text.substitute_cons_of_none (by rw [h]; rfl) _

theorem brokenUp_cons_of_ne (h : c ≠ '<') (t : Text) : brokenUp (c :: t) = c :: brokenUp t :=
  brokenUp_cons_of_none (Text.after?_of_ne h ['/'] t)

theorem brokenUp_mark (t : Text) :
    brokenUp (['<', '/'] ++ t) = ['<', '\\', '/'] ++ brokenUp t :=
  Text.substitute_append_of_some (List.cons_ne_nil _ _) rfl _

theorem brokenUp_lt_of_ne (h : t.head? ≠ some '/') : brokenUp ('<' :: t) = '<' :: brokenUp t := by
  refine brokenUp_cons_of_none ?_
  cases t with
  | nil => rfl
  | cons c cs => exact Text.after?_of_ne (fun hc ↦ h (congrArg some hc)) [] cs

/-- Breaking up the parts of a text is breaking up the text, unless a mark stands across them. -/
theorem brokenUp_append {u : Text} (h : t.getLast? = some '<' → u.head? ≠ some '/') :
    brokenUp (t ++ u) = brokenUp t ++ brokenUp u := by
  induction t using List.twoStepInduction with
  | nil => rw [brokenUp_nil, List.nil_append, List.nil_append]
  | singleton c =>
    rw [List.singleton_append]
    by_cases hc : c = '<'
    · subst hc
      rw [brokenUp_lt_of_ne (h rfl), brokenUp_lt_of_ne (by decide), brokenUp_nil,
        List.singleton_append]
    · rw [brokenUp_cons_of_ne hc, brokenUp_cons_of_ne hc, brokenUp_nil, List.singleton_append]
  | cons_cons c d t ih ih' =>
    rw [List.getLast?_cons_cons] at h
    by_cases hc : c = '<'
    · subst hc
      by_cases hd : d = '/'
      -- The mark is taken as a whole, and what follows it is broken up on its own.
      · subst hd
        have hrest := ih fun ht ↦ h (by rw [List.getLast?_cons, ht]; rfl)
        calc brokenUp (['<', '/'] ++ (t ++ u))
          _ = ['<', '\\', '/'] ++ (brokenUp t ++ brokenUp u) := by rw [brokenUp_mark, hrest]
          _ = brokenUp (['<', '/'] ++ t) ++ brokenUp u := by rw [brokenUp_mark, List.append_assoc]
      · have hhead : (d :: t).head? ≠ some '/' := fun heq ↦ hd (Option.some.inj heq)
        have hhead' : (d :: t ++ u).head? ≠ some '/' := fun heq ↦ hd (Option.some.inj heq)
        rw [List.cons_append, brokenUp_lt_of_ne hhead', ih' d h, brokenUp_lt_of_ne hhead,
          List.cons_append]
    · rw [List.cons_append, brokenUp_cons_of_ne hc, ih' d h, brokenUp_cons_of_ne hc,
        List.cons_append]

theorem brokenUp_of_notMem (h : '<' ∉ t) : brokenUp t = t := by
  refine Text.substitute_of_none (fun c hc u ↦ ?_) _
  have hnone : Text.after? "</" (c :: u) = none := Text.after?_of_ne (ne_of_mem_of_not_mem hc h) _ u
  rw [hnone]
  rfl

theorem brokenUp_append_of_notMem (h : '<' ∉ t) (u : Text) :
    brokenUp (t ++ u) = t ++ brokenUp u := by
  rw [brokenUp_append fun hlast ↦ absurd (List.mem_of_getLast? hlast) h, brokenUp_of_notMem h]

theorem brokenUp_around {front back : Text} (hfront : '<' ∉ front) (hback : '<' ∉ back)
    (hhead : back.head? ≠ some '/') (t : Text) :
    brokenUp (front ++ (t ++ back)) = front ++ (brokenUp t ++ back) := by
  rw [brokenUp_append_of_notMem hfront, brokenUp_append fun _ ↦ hhead, brokenUp_of_notMem hback]

theorem brokenUp_join {mark : Text} (hmark : '<' ∉ mark) {ts : List Text}
    (hts : ∀ t ∈ ts, t.getLast? ≠ some '<') :
    brokenUp (Text.join mark ts) = Text.join mark (ts.map brokenUp) := by
  induction ts with
  | nil => exact brokenUp_nil
  | cons t ts ih =>
    obtain ⟨ht, hts⟩ := List.forall_mem_cons.mp hts
    cases ts with
    | nil => rfl
    | cons u us =>
      rw [Text.join, brokenUp_append fun hlast ↦ absurd hlast ht,
        brokenUp_append_of_notMem hmark, ih hts]
      rfl

end Script

/-! ## Breaking up JSON -/

namespace Json

open Script

theorem lt_notMem_of_isSpaces {spaces : Text} (h : IsSpaces spaces) : '<' ∉ spaces := fun hmem ↦
  absurd (h '<' hmem) (by decide)

theorem lt_notMem_escapeChar (asciiOnly : Bool) (hc : c ≠ '<') : '<' ∉ escapeChar asciiOnly c := by
  rcases escapeChar_cases asciiOnly c with hplain | ⟨-, w, hescape, hw⟩
  · rw [hplain, List.mem_singleton]
    exact hc.symm
  · rw [hescape, List.mem_cons, not_or]
    exact ⟨by decide, hw⟩

theorem escapeChar_lt (asciiOnly : Bool) : escapeChar asciiOnly '<' = ['<'] := by
  cases asciiOnly <;> decide

theorem escapeChar_slash (asciiOnly : Bool) : escapeChar asciiOnly '/' = ['/'] := by
  cases asciiOnly <;> decide

theorem head?_flatMap_escapeChar_ne (asciiOnly : Bool) (h : t.head? ≠ some '/') :
    (t.flatMap (escapeChar asciiOnly)).head? ≠ some '/' := by
  cases t with
  | nil => exact h
  | cons c cs =>
    rw [List.flatMap_cons]
    rcases escapeChar_cases asciiOnly c with hplain | ⟨-, w, hescape, -⟩
    · rw [hplain]
      exact h
    · rw [hescape]
      exact fun heq ↦ absurd (Option.some.inj heq) (by decide)

section Characters

variable (asciiOnly : Bool) {t : Text}

theorem brokenUp_flatMap_cons (h : c = '<' → t.head? ≠ some '/') :
    brokenUp ((c :: t).flatMap (escapeChar asciiOnly)) =
      escapeChar asciiOnly c ++ brokenUp (t.flatMap (escapeChar asciiOnly)) := by
  rw [List.flatMap_cons]
  by_cases hc : c = '<'
  · subst hc
    rw [escapeChar_lt, List.singleton_append, List.singleton_append,
      brokenUp_lt_of_ne (head?_flatMap_escapeChar_ne asciiOnly (h rfl))]
  · exact brokenUp_append_of_notMem (lt_notMem_escapeChar asciiOnly hc) _

theorem brokenUp_flatMap_mark :
    brokenUp (('<' :: '/' :: t).flatMap (escapeChar asciiOnly)) =
      escapeChar asciiOnly '<' ++
        (['\\', '/'] ++ brokenUp (t.flatMap (escapeChar asciiOnly))) := by
  rw [List.flatMap_cons, List.flatMap_cons, escapeChar_lt, escapeChar_slash]
  exact brokenUp_mark _

/-- The characters of a string are read where the marks among them are broken up. The induction goes
by two characters, since that is what a mark takes. -/
theorem readChars_brokenUp (t rest : Text) :
    readChars (brokenUp (t.flatMap (escapeChar asciiOnly)) ++ '"' :: rest) = some (t, rest) := by
  have hend : readChars (brokenUp [] ++ '"' :: rest) = some ([], rest) := by
    rw [brokenUp_nil, List.nil_append, readChars, if_pos rfl]
  have hescape : ∃ d ds, ['\\', '/'] = d :: ds ∧ d ≠ '"' := ⟨'\\', ['/'], rfl, by decide⟩
  have hslash (more : Text) : readChar (['\\', '/'] ++ more) = some ('/', more) := rfl
  induction t using List.twoStepInduction with
  | nil => exact hend
  | singleton c =>
    have hempty : ([] : Text).head? ≠ some '/' := by decide
    rw [brokenUp_flatMap_cons asciiOnly fun _ ↦ hempty, List.flatMap_nil, List.append_assoc,
      readChars_cons, hend]
    rfl
  | cons_cons c d t ih ih' =>
    by_cases hmark : c = '<' ∧ d = '/'
    · obtain ⟨rfl, rfl⟩ := hmark
      rw [brokenUp_flatMap_mark, List.append_assoc, readChars_cons, List.append_assoc,
        readChars_append hescape (hslash _), ih]
      rfl
    · have hhead : c = '<' → (d :: t).head? ≠ some '/' := fun hc heq ↦
        hmark ⟨hc, Option.some.inj heq⟩
      rw [brokenUp_flatMap_cons asciiOnly hhead, List.append_assoc, readChars_cons, ih' d]
      rfl

end Characters

theorem brokenUp_writeText (asciiOnly : Bool) (t : Text) :
    brokenUp (writeText asciiOnly t) =
      '"' :: (brokenUp (t.flatMap (escapeChar asciiOnly)) ++ ['"']) :=
  brokenUp_around (by decide : '<' ∉ ['"']) (by decide : '<' ∉ ['"']) (by decide) _

theorem readText_brokenUp (asciiOnly : Bool) (t rest : Text) :
    readText (brokenUp (writeText asciiOnly t) ++ rest) = some (t, rest) := by
  rw [brokenUp_writeText, readText, List.cons_append, after?_cons, Option.bind_some,
    List.append_assoc]
  exact readChars_brokenUp asciiOnly t rest

theorem brokenUp_bracket {style : JsonStyle} (hstyle : style.IsStandard) (level : Nat)
    {opening closing : Char} (hopening : opening ≠ '<') (hclosing : closing ∉ ['<', '/'])
    {ts : List Text} (hts : ∀ t ∈ ts, t.getLast? ≠ some '<') :
    brokenUp (bracket style level opening closing ts) =
      bracket style level opening closing (ts.map brokenUp) := by
  have hends : closing ≠ '<' ∧ closing ≠ '/' := by simpa using hclosing
  by_cases hnil : ts = []
  · subst hnil
    have hnone : '<' ∉ [opening, closing] := by simp [hopening.symm, hends.1.symm]
    exact brokenUp_of_notMem hnone
  · obtain ⟨before, between, last, hbefore, hbetween, hlast, hbracket⟩ :=
      exists_bracket hstyle level opening closing
    have hfront : '<' ∉ opening :: before := by
      rw [List.mem_cons, not_or]
      exact ⟨hopening.symm, lt_notMem_of_isSpaces hbefore⟩
    have hback : '<' ∉ last ++ [closing] := by
      rw [List.mem_append, not_or, List.mem_singleton]
      exact ⟨lt_notMem_of_isSpaces hlast, hends.1.symm⟩
    have hhead : (last ++ [closing]).head? ≠ some '/' := by
      cases last with
      | nil => exact fun heq ↦ hends.2 (Option.some.inj heq)
      | cons c cs =>
        intro heq
        have hslash := hlast c List.mem_cons_self
        rw [Option.some.inj heq] at hslash
        exact absurd hslash (by decide)
    have hmark : '<' ∉ ',' :: between := by
      rw [List.mem_cons, not_or]
      exact ⟨by decide, lt_notMem_of_isSpaces hbetween⟩
    have haround := brokenUp_around hfront hback hhead (Text.join (',' :: between) ts)
    rw [brokenUp_join hmark hts] at haround
    have hmap : ts.map brokenUp ≠ [] := by simpa using hnil
    rw [hbracket ts hnil, hbracket _ hmap]
    exact haround

/-! ## Members -/

section Members

variable {style : JsonStyle} (hstyle : style.IsStandard) (level : Nat) (key value : Text)

theorem getLast?_writeMember_text :
    (writeMember style level (key, .text value)).getLast? = some '"' := by
  have hvalue : writeText style.asciiOnly value ≠ [] := List.cons_ne_nil _ _
  rw [writeMember, writeAt, List.getLast?_append_of_ne_nil _ hvalue, writeText,
    List.getLast?_concat]

include hstyle

theorem brokenUp_writeMember_text :
    brokenUp (writeMember style level (key, .text value)) =
      brokenUp (writeText style.asciiOnly key) ++
        (style.nameMark ++ brokenUp (writeText style.asciiOnly value)) := by
  obtain ⟨spaces, hspaces, hname⟩ := hstyle.nameMark
  have hmark : '<' ∉ style.nameMark := by
    rw [hname, List.mem_cons, not_or]
    exact ⟨by decide, lt_notMem_of_isSpaces hspaces⟩
  have hhead : (style.nameMark ++ writeText style.asciiOnly value).head? ≠ some '/' := by
    rw [hname]
    exact fun heq ↦ absurd (Option.some.inj heq) (by decide)
  rw [writeMember, writeAt, List.append_assoc, brokenUp_append fun _ ↦ hhead,
    brokenUp_append_of_notMem hmark]

theorem readMember_brokenUp (depth : Nat) (rest : Text) :
    readMember (readValue (depth + 1))
        (brokenUp (writeMember style level (key, .text value)) ++ rest) =
      some ((key, .text value), rest) := by
  obtain ⟨spaces, hspaces, hname⟩ := hstyle.nameMark
  have htext := readText_brokenUp style.asciiOnly value rest
  have hvalue : readValue (depth + 1) (brokenUp (writeText style.asciiOnly value) ++ rest) =
      some (.text value, rest) := by
    rw [brokenUp_writeText, List.cons_append] at htext ⊢
    rw [readValue, if_pos rfl, htext]
    rfl
  have hmark : mark? ':' (':' :: (spaces ++ (brokenUp (writeText style.asciiOnly value) ++ rest))) =
      some (brokenUp (writeText style.asciiOnly value) ++ rest) := by
    rw [mark?_cons (by decide) hspaces, brokenUp_writeText, List.cons_append,
      skip_cons (by decide)]
  simp only [readMember, brokenUp_writeMember_text hstyle, hname, List.append_assoc,
    List.cons_append, readText_brokenUp, Option.bind_eq_bind, Option.bind_some, hmark, hvalue]

end Members

theorem two_le_length_bracket (style : JsonStyle) (level : Nat) (opening closing : Char)
    (ts : List Text) : 2 ≤ (bracket style level opening closing ts).length := by
  rw [bracket]
  split_ifs
  · exact le_rfl
  · cases style.indent with
    | none => simp
    | some step => simp

/-- Breaking up the marks in an object whose values are texts does not change what it says. -/
theorem read_brokenUp_object {style : JsonStyle} (hstyle : style.IsStandard)
    {members : List (Text × Json)} (htext : ∀ member ∈ members, ∃ t, member.2 = .text t) :
    read (brokenUp (write style (.object members))) = some (.object members) := by
  have hlast : ∀ t ∈ members.map (writeMember style 1), t.getLast? ≠ some '<' := by
    rw [List.forall_mem_map]
    rintro ⟨key, value⟩ hmember
    obtain ⟨t, rfl⟩ := htext _ hmember
    rw [getLast?_writeMember_text]
    decide
  have hfirst : ∀ member ∈ members, OpensValue (brokenUp (writeMember style 1 member)) := by
    rintro ⟨key, value⟩ hmember
    obtain ⟨t, rfl⟩ := htext _ hmember
    rw [brokenUp_writeMember_text hstyle, brokenUp_writeText]
    exact ⟨'"', _, rfl, by decide⟩
  have hread : ∀ depth, ∀ member ∈ members, ∀ rest, Ends rest →
      readMember (readValue (depth + 1)) (brokenUp (writeMember style 1 member) ++ rest) =
        some (member, rest) := by
    rintro depth ⟨key, value⟩ hmember rest -
    obtain ⟨t, rfl⟩ := htext _ hmember
    exact readMember_brokenUp hstyle 1 key t depth rest
  have hwrite : brokenUp (write style (.object members)) = bracket style 0 '\x7b' '\x7d'
      (members.map fun member ↦ brokenUp (writeMember style 1 member)) := by
    rw [write, writeAt, writeMembers_eq, brokenUp_bracket hstyle 0 (by decide) (by decide) hlast,
      List.map_map]
    rfl
  -- The brackets take one level of the reader's depth, and the texts in them one more.
  obtain ⟨depth, hdepth⟩ := Nat.exists_eq_add_of_le' (two_le_length_bracket style 0 '\x7b' '\x7d'
    (members.map fun member ↦ brokenUp (writeMember style 1 member)))
  obtain ⟨u, hu, hsequence⟩ := readSequence_bracket hstyle 0 '\x7b'
    (by decide : '\x7d' ∈ [']', '\x7d']) (hread depth) hfirst []
  rw [List.append_nil] at hu
  rw [hwrite, read, hdepth, hu, skip_cons (by decide), readValue, if_neg (by decide),
    if_neg (by decide), if_pos rfl, hsequence]
  rfl

end Json

/-! ## The metadata of a page -/

namespace Script

theorem isStandard_metadata : { JsonStyle.indented with asciiOnly := false }.IsStandard where
  itemMark := ⟨[], by decide, rfl⟩
  nameMark := ⟨[' '], by decide, rfl⟩
  indent := fun step hstep ↦ by
    obtain rfl := Option.some.inj hstep
    decide

/-- **The metadata of a page is read back from its program.** Whatever the keys and the values are,
the object that the program declares has no closing mark in it, and it is the JSON text of the
fields in their order. -/
theorem metadata_read_back (c : Component) :
    let object := metadataObject c.fields
    (metadataLines c)[1]? = some ("const pageMetadata = " ++ object ++ ";") ∧
      ¬ ("</" : Text) <:+: object ∧
      Json.read object =
        some (.object (c.fields.map fun field ↦ (field.1, .text field.2))) := by
  refine ⟨rfl, (replace_spec _).1, Json.read_brokenUp_object isStandard_metadata ?_⟩
  intro member hmember
  obtain ⟨field, -, rfl⟩ := List.mem_map.mp hmember
  exact ⟨field.2, rfl⟩

end Script

end PageCompiler
