import PageCompiler.Proofs.EncodedTexts
import PageCompiler.Proofs.WrittenNumbers

/-!
# Reading JSON

A reader of JSON texts, with one value more than the format has, the number `Infinity`. Reading what
was written gives the value back, in every style whose marks are those of the format with spaces
around them (`Json.read_write`).

The reader takes a bound on how deep values are nested, and the length of the text is always enough.
The proof goes along the value, with the bound above the length of what was written for it: an item
is shorter than the brackets around it.
-/

namespace PageCompiler

variable {spaces t : Text} {c : Char} {style : JsonStyle} {depth : Nat}

namespace Json

/-! ## The reader -/

/-- Whether a character may stand between the parts of a value. -/
def isSpace (c : Char) : Bool := c == ' ' || c == '\n' || c == '\r' || c == '\t'

/-- A text without the spaces that it begins with. -/
def skip (t : Text) : Text := t.dropWhile isSpace

/-- The rest after a mark and the spaces around it. -/
def mark? (mark : Char) (t : Text) : Option Text := (Text.after? [mark] (skip t)).map skip

def opensNumber (c : Char) : Bool := c == '-' || c.isDigit

def named : List (Text × Json) :=
  [("null", .null), ("true", .bool true), ("false", .bool false),
   ("Infinity", .float (.infinite false))]

def readNamed : Reader Json := fun t ↦
  named.findSome? fun (name, value) ↦ (Text.after? name t).map fun rest ↦ (value, rest)

/-- Reads one item or more, with commas between them, and the closing bracket. -/
def readItems {α : Type} (item : Reader α) (closing : Char) (t : Text) : Option (List α × Text) :=
  match item t with
  | none => none
  | some (a, rest) =>
    match mark? ',' rest with
    | none => (Text.after? [closing] (skip rest)).map fun more ↦ ([a], more)
    | some more =>
      if more.length < t.length then
        (readItems item closing more).map fun (others, rest) ↦ (a :: others, rest)
      else none
termination_by t.length

def readSequence {α : Type} (item : Reader α) (closing : Char) : Reader (List α) := fun t ↦
  match Text.after? [closing] (skip t) with
  | some rest => some ([], rest)
  | none => readItems item closing (skip t)

def readMember (value : Reader Json) : Reader (Text × Json) := fun t ↦ do
  let (name, u) ← readText t
  let (v, rest) ← value (← mark? ':' u)
  some ((name, v), rest)

/-- Reads a value in which no more than `depth` values are nested. -/
def readValue : (depth : Nat) → Reader Json
  | 0, _ => none
  | _ + 1, [] => none
  | depth + 1, c :: cs =>
    if c = '"' then (readText (c :: cs)).map fun (t, rest) ↦ (.text t, rest)
    else if c = '[' then
      (readSequence (readValue depth) ']' cs).map fun (items, rest) ↦ (.list items, rest)
    else if c = '\x7b' then
      (readSequence (readMember (readValue depth)) '\x7d' cs).map fun (members, rest) ↦
        (.object members, rest)
    else if opensNumber c then readNumber (c :: cs)
    else readNamed (c :: cs)

/-- The value that a text stands for. There are not more values nested in it than it has characters.
-/
def read (t : Text) : Option Json :=
  (readValue t.length (skip t)).bind fun (v, rest) ↦ if (skip rest).isEmpty then some v else none

/-! ## Spaces and marks -/

def IsSpaces (t : Text) : Prop := ∀ c ∈ t, isSpace c = true

instance (t : Text) : Decidable (IsSpaces t) := inferInstanceAs (Decidable (∀ c ∈ t, _))

theorem skip_append (h : IsSpaces spaces) (t : Text) :
    skip (spaces ++ t) = skip t := List.dropWhile_append_of_pos h

theorem skip_cons (h : isSpace c = false) (cs : Text) : skip (c :: cs) = c :: cs :=
  List.dropWhile_cons_of_neg (by simp [h])

theorem after?_cons (mark : Char) (t : Text) : Text.after? [mark] (mark :: t) = some t :=
  Text.after?_append [mark] t

theorem mark?_cons {mark : Char} (hmark : isSpace mark = false) (hspaces : IsSpaces spaces)
    (t : Text) : mark? mark (mark :: (spaces ++ t)) = some (skip t) := by
  rw [mark?, skip_cons hmark, after?_cons, Option.map_some, skip_append hspaces]

theorem mark?_of_ne {mark : Char} (hc : isSpace c = false) (hne : c ≠ mark) {front : Text}
    (hfront : IsSpaces front) (t : Text) : mark? mark (front ++ c :: t) = none := by
  rw [mark?, skip_append hfront, skip_cons hc, Text.after?_of_ne hne, Option.map_none]

theorem ends_cons (h : continuesNumber c = false) (cs : Text) : Ends (c :: cs) :=
  fun _ hc ↦ Option.some.inj hc ▸ h

theorem ends_append {mark : Char} (hmark : continuesNumber mark = false) (hspaces : IsSpaces spaces)
    (t : Text) : Ends (spaces ++ mark :: t) := by
  cases spaces with
  | nil => exact ends_cons hmark t
  | cons c cs =>
    have hspace := hspaces c List.mem_cons_self
    refine ends_cons ?_ _
    simp only [isSpace, Bool.or_eq_true, beq_iff_eq] at hspace
    rcases hspace with ((rfl | rfl) | rfl) | rfl <;> decide

/-! ## Styles -/

end Json

/-- Whether the marks of a style are those of the format, with nothing but spaces around them. -/
structure JsonStyle.IsStandard (style : JsonStyle) : Prop where
  itemMark : ∃ spaces, Json.IsSpaces spaces ∧ style.itemMark = ',' :: spaces
  nameMark : ∃ spaces, Json.IsSpaces spaces ∧ style.nameMark = ':' :: spaces
  indent : ∀ step ∈ style.indent, Json.IsSpaces step

theorem JsonStyle.isStandard_compact : JsonStyle.compact.IsStandard where
  itemMark := ⟨[], by decide, rfl⟩
  nameMark := ⟨[], by decide, rfl⟩
  indent := fun _ hstep ↦ by cases hstep

namespace Json

theorem isSpaces_newline {step : Text} (h : IsSpaces step) (level : Nat) :
    IsSpaces ('\n' :: (List.replicate level step).flatten) := by
  refine List.forall_mem_cons.mpr ⟨by decide, fun c hc ↦ ?_⟩
  obtain ⟨t, ht, hct⟩ := List.mem_flatten.mp hc
  exact h c (List.eq_of_mem_replicate ht ▸ hct)

/-- The three layouts of a bracket are one up to spaces. -/
theorem exists_bracket (hstyle : style.IsStandard) (level : Nat) (opening closing : Char) :
    ∃ before between last, IsSpaces before ∧ IsSpaces between ∧ IsSpaces last ∧
      ∀ ts : List Text, ts ≠ [] → bracket style level opening closing ts =
        opening :: (before ++ (Text.join (',' :: between) ts ++ (last ++ [closing]))) := by
  obtain ⟨spaces, hspaces, hitem⟩ := hstyle.itemMark
  cases hindent : style.indent with
  | none =>
    refine ⟨[], spaces, [], by decide, hspaces, by decide, fun ts hne ↦ ?_⟩
    rw [bracket, if_neg (by simpa using hne)]
    simp [hindent, hitem]
  | some step =>
    have hnewline := isSpaces_newline (hstyle.indent step hindent)
    refine ⟨_, spaces ++ _, _, hnewline (level + 1),
      List.forall_mem_append.mpr ⟨hspaces, hnewline (level + 1)⟩, hnewline level, fun ts hne ↦ ?_⟩
    rw [bracket, if_neg (by simpa using hne)]
    simp [hindent, hitem]

/-! ## Sequences -/

theorem exists_join_cons (mark t : Text) (ts : List Text) :
    ∃ u, Text.join mark (t :: ts) = t ++ u := by
  cases ts with
  | nil => exact ⟨[], (List.append_nil t).symm⟩
  | cons t' ts => exact ⟨_, rfl⟩

/-- Whether a text begins as a value does, and not with a space or a closing bracket. -/
def OpensValue (t : Text) : Prop :=
  ∃ c cs, t = c :: cs ∧ isSpace c = false ∧ c ∉ [']', '\x7d']

section Sequence

variable {α : Type} {item : Reader α} {write : α → Text} {closing : Char} {items : List α}
  {between last : Text}

theorem readItems_join (hclosing : closing ∈ [']', '\x7d']) (hbetween : IsSpaces between)
    (hlast : IsSpaces last)
    (hread : ∀ a ∈ items, ∀ rest, Ends rest → item (write a ++ rest) = some (a, rest))
    (hfirst : ∀ a ∈ items, OpensValue (write a)) (hne : items ≠ []) (rest : Text) :
    readItems item closing
      (Text.join (',' :: between) (items.map write) ++ (last ++ closing :: rest)) =
        some (items, rest) := by
  have hall : ∀ c ∈ [']', '\x7d'], isSpace c = false ∧ c ≠ ',' ∧ continuesNumber c = false := by
    decide
  obtain ⟨hspace, hcomma, hends⟩ := hall closing hclosing
  induction items with
  | nil => exact absurd rfl hne
  | cons a items ih =>
    obtain ⟨hreada, hread⟩ := List.forall_mem_cons.mp hread
    obtain ⟨hfirsta, hfirst⟩ := List.forall_mem_cons.mp hfirst
    cases items with
    | nil =>
      rw [List.map_singleton, Text.join, readItems, hreada _ (ends_append hends hlast rest)]
      have hnone := mark?_of_ne hspace hcomma hlast rest
      simp only [hnone, skip_append hlast, skip_cons hspace, after?_cons, Option.map_some]
    | cons b items =>
      have hothers := ih hread hfirst (List.cons_ne_nil b items)
      have hskip : skip (Text.join (',' :: between) ((b :: items).map write) ++
          (last ++ closing :: rest)) =
            Text.join (',' :: between) ((b :: items).map write) ++ (last ++ closing :: rest) := by
        obtain ⟨c, cs, hb, hc, -⟩ := hfirst b List.mem_cons_self
        obtain ⟨u, hu⟩ := exists_join_cons (',' :: between) (write b) (items.map write)
        rw [List.map_cons, hu, hb, List.cons_append, List.cons_append, skip_cons hc]
      rw [List.map_cons, List.map_cons, Text.join, ← List.map_cons, List.append_assoc,
        List.append_assoc, List.cons_append]
      generalize Text.join (',' :: between) ((b :: items).map write) ++
        (last ++ closing :: rest) = others at hothers hskip ⊢
      have hitem := hreada (',' :: (between ++ others)) (ends_cons (by decide) _)
      have hmark : mark? ',' (',' :: (between ++ others)) = some others := by
        rw [mark?_cons (by decide) hbetween, hskip]
      have hshorter : others.length < (write a ++ ',' :: (between ++ others)).length := by
        simp only [List.length_append, List.length_cons]
        omega
      rw [readItems, hitem]
      simp only [hmark, if_pos hshorter, hothers, Option.map_some]

theorem readSequence_bracket (hstyle : style.IsStandard) (level : Nat) (opening : Char)
    (hclosing : closing ∈ [']', '\x7d'] )
    (hread : ∀ a ∈ items, ∀ rest, Ends rest → item (write a ++ rest) = some (a, rest))
    (hfirst : ∀ a ∈ items, OpensValue (write a)) (rest : Text) :
    ∃ u, bracket style level opening closing (items.map write) ++ rest = opening :: u ∧
      readSequence item closing u = some (items, rest) := by
  have hall : ∀ c ∈ [']', '\x7d'], isSpace c = false := by decide
  by_cases hne : items = []
  · refine ⟨closing :: rest, by rw [hne]; rfl, ?_⟩
    simp only [readSequence, skip_cons (hall closing hclosing), after?_cons, hne]
  · have hmap : items.map write ≠ [] := by simpa using hne
    obtain ⟨before, between, last, hbefore, hbetween, hlast, hbracket⟩ :=
      exists_bracket hstyle level opening closing
    have heq := hbracket _ hmap
    have hitems := readItems_join hclosing hbetween hlast hread hfirst hne rest
    refine ⟨before ++ (Text.join (',' :: between) (items.map write) ++ (last ++ closing :: rest)),
      by simp [heq], ?_⟩
    obtain ⟨a, others, rfl⟩ := List.exists_cons_of_ne_nil hne
    obtain ⟨c, cs, ha, hspace, hc⟩ := hfirst a List.mem_cons_self
    obtain ⟨u, hu⟩ := exists_join_cons (',' :: between) (write a) (others.map write)
    rw [List.map_cons, hu, ha, List.cons_append, List.cons_append] at hitems ⊢
    have hother : c ≠ closing := fun heq ↦ hc (heq ▸ hclosing)
    simp only [readSequence, skip_append hbefore, skip_cons hspace, Text.after?_of_ne hother,
      hitems]

end Sequence

/-! ## Values -/

/-- Whether a value can be read from its text: its floating-point numbers are of the format, and
either finite or positive infinity. -/
inductive IsReadable : Json → Prop
  | null : IsReadable .null
  | bool (b : Bool) : IsReadable (.bool b)
  | int (i : Int) : IsReadable (.int i)
  | finite (negative : Bool) {units : Nat} (h : Binary64.IsMagnitude units) :
    IsReadable (.float (.finite negative units))
  | infinite : IsReadable (.float (.infinite false))
  | text (t : Text) : IsReadable (.text t)
  | list {items : List Json} (h : ∀ item ∈ items, IsReadable item) : IsReadable (.list items)
  | object {members : List (Text × Json)} (h : ∀ member ∈ members, IsReadable member.2) :
    IsReadable (.object members)

theorem writeItems_eq (style : JsonStyle) (level : Nat) (items : List Json) :
    writeItems style level items = items.map (writeAt style level) := by
  induction items with
  | nil => rfl
  | cons item items ih => rw [writeItems, ih, List.map_cons]

def writeMember (style : JsonStyle) (level : Nat) (member : Text × Json) : Text :=
  writeText style.asciiOnly member.1 ++ style.nameMark ++ writeAt style level member.2

theorem writeMembers_eq (style : JsonStyle) (level : Nat) (members : List (Text × Json)) :
    writeMembers style level members = members.map (writeMember style level) := by
  induction members with
  | nil => rfl
  | cons member members ih => rw [writeMembers, ih, List.map_cons, writeMember]

theorem exists_cons_bracket (style : JsonStyle) (level : Nat) (opening closing : Char)
    (ts : List Text) : ∃ cs, bracket style level opening closing ts = opening :: cs := by
  rw [bracket]
  split_ifs
  · exact ⟨_, rfl⟩
  · cases style.indent with
    | none => exact ⟨_, rfl⟩
    | some step => exact ⟨_, rfl⟩

theorem opensNumber_eq_false (h : c ∈ [' ', '\n', '\r', '\t', ']', '\x7d', '"', '[', '\x7b']) :
    opensNumber c = false := by
  have hall : ∀ c ∈ [' ', '\n', '\r', '\t', ']', '\x7d', '"', '[', '\x7b'],
      opensNumber c = false := by decide
  exact hall c h

theorem opensValue_of_opensNumber (h : opensNumber c = true) (cs : Text) :
    OpensValue (c :: cs) := by
  refine ⟨c, cs, rfl, Bool.eq_false_iff.mpr fun hspace ↦ ?_, fun hclosing ↦ ?_⟩
  · refine absurd h (Bool.eq_false_iff.mp (opensNumber_eq_false ?_))
    simp only [isSpace, Bool.or_eq_true, beq_iff_eq] at hspace
    rcases hspace with ((rfl | rfl) | rfl) | rfl <;> decide
  · refine absurd h (Bool.eq_false_iff.mp (opensNumber_eq_false ?_))
    simp only [List.mem_cons, List.not_mem_nil, or_false] at hclosing
    rcases hclosing with rfl | rfl <;> decide

theorem exists_cons_sign (negative : Bool) {parts : NumberParts} (h : parts.IsWellFormed) :
    ∃ c cs, DecimalLayout.sign negative ++ parts.text = c :: cs ∧ opensNumber c = true := by
  cases negative with
  | true => exact ⟨'-', _, rfl, rfl⟩
  | false =>
    obtain ⟨c, cs, htext, hc⟩ := h.exists_cons
    exact ⟨c, cs, htext, by rw [opensNumber, hc, Bool.or_true]⟩

theorem readValue_sign (negative : Bool) {parts : NumberParts} (h : parts.IsWellFormed)
    {rest : Text} (hrest : Ends rest) (depth : Nat) :
    readValue (depth + 1) (DecimalLayout.sign negative ++ parts.text ++ rest) =
      some (parts.value negative, rest) := by
  have hnumber := readNumber_sign negative h hrest
  obtain ⟨c, cs, htext, hc⟩ := exists_cons_sign negative h
  rw [← List.append_assoc, htext, List.cons_append] at hnumber
  have hne : ∀ d ∈ ['"', '[', '\x7b'], c ≠ d := by
    rintro d hd rfl
    refine absurd hc (Bool.eq_false_iff.mp (opensNumber_eq_false ?_))
    simp only [List.mem_cons, List.not_mem_nil, or_false] at hd ⊢
    tauto
  rw [htext, List.cons_append, readValue, if_neg (hne '"' (by decide)),
    if_neg (hne '[' (by decide)), if_neg (hne '\x7b' (by decide)), if_pos hc, hnumber]

theorem opensValue_writeAt (style : JsonStyle) (level : Nat) {value : Json}
    (h : value.IsReadable) : OpensValue (writeAt style level value) := by
  cases h with
  | null => exact ⟨'n', _, rfl, by decide⟩
  | bool b =>
    cases b with
    | false => exact ⟨'f', _, rfl, by decide⟩
    | true => exact ⟨'t', _, rfl, by decide⟩
  | int i =>
    obtain ⟨c, cs, htext, hc⟩ := exists_cons_sign (i < 0) (isWellFormed_ofNat i.natAbs)
    rw [writeAt, ofInt_eq, htext]
    exact opensValue_of_opensNumber hc cs
  | finite negative h =>
    obtain ⟨parts, htext, hparts, -⟩ := exists_parts_magnitude h .script
    obtain ⟨c, cs, htext', hc⟩ := exists_cons_sign negative hparts
    rw [writeAt, DecimalLayout.write, htext, htext']
    exact opensValue_of_opensNumber hc cs
  | infinite => exact ⟨'I', _, rfl, by decide⟩
  | text t => exact ⟨'"', _, rfl, by decide⟩
  | @list items =>
    obtain ⟨cs, hcs⟩ := exists_cons_bracket style level '[' ']' (writeItems style (level + 1) items)
    exact ⟨'[', cs, hcs, by decide⟩
  | @object members =>
    obtain ⟨cs, hcs⟩ := exists_cons_bracket style level '\x7b' '\x7d'
      (writeMembers style (level + 1) members)
    exact ⟨'\x7b', cs, hcs, by decide⟩

theorem OpensValue.length_pos (h : OpensValue t) : 0 < t.length := by
  obtain ⟨c, cs, rfl, -⟩ := h
  exact Nat.succ_pos _

theorem length_le_length_join (mark : Text) {ts : List Text} (h : t ∈ ts) :
    t.length ≤ (Text.join mark ts).length := by
  induction ts with
  | nil => cases h
  | cons u ts ih =>
    cases ts with
    | nil => rw [List.mem_singleton.mp h, Text.join]
    | cons u' ts =>
      rw [Text.join, List.length_append, List.length_append]
      rcases List.mem_cons.mp h with rfl | hmem
      · exact Nat.le_add_right _ _
      · have hle := ih hmem
        omega

theorem length_le_of_bracket {level : Nat} {opening closing : Char} {α : Type} {write : α → Text}
    {items : List α}
    (h : (bracket style level opening closing (items.map write)).length ≤ depth + 1) {a : α}
    (ha : a ∈ items) : (write a).length ≤ depth := by
  have hmem : write a ∈ items.map write := List.mem_map_of_mem ha
  rw [bracket, if_neg (by simpa using List.ne_nil_of_mem ha)] at h
  cases hindent : style.indent with
  | none =>
    have hle := length_le_length_join style.itemMark hmem
    simp only [hindent, List.cons_append, List.length_cons, List.length_append] at h
    omega
  | some step =>
    have hle := length_le_length_join
      (style.itemMark ++ '\n' :: (List.replicate (level + 1) step).flatten) hmem
    simp only [hindent, List.cons_append, List.length_cons, List.length_append] at h
    omega

theorem opensValue_writeMember (style : JsonStyle) (level : Nat) (member : Text × Json) :
    OpensValue (writeMember style level member) := ⟨'"', _, rfl, by decide⟩

theorem length_writeAt_le_writeMember (style : JsonStyle) (level : Nat) (member : Text × Json) :
    (writeAt style level member.2).length ≤ (writeMember style level member).length := by
  rw [writeMember, List.length_append]
  exact Nat.le_add_left _ _

theorem readMember_writeMember (hstyle : style.IsStandard) {level : Nat} {member : Text × Json}
    (h : member.2.IsReadable) {rest : Text}
    (hvalue : readValue depth (writeAt style level member.2 ++ rest) = some (member.2, rest)) :
    readMember (readValue depth) (writeMember style level member ++ rest) =
      some (member, rest) := by
  obtain ⟨spaces, hspaces, hmark⟩ := hstyle.nameMark
  obtain ⟨c, cs, hfirst, hc, -⟩ := opensValue_writeAt style level h
  have hskip : mark? ':' (':' :: (spaces ++ (writeAt style level member.2 ++ rest))) =
      some (writeAt style level member.2 ++ rest) := by
    rw [hfirst, List.cons_append]
    rw [mark?_cons (by decide) hspaces, skip_cons hc]
  simp only [readMember, writeMember, hmark, List.append_assoc, List.cons_append,
    readText_writeText, Option.bind_eq_bind, Option.bind_some, hskip, hvalue]

/-- Reading what was written gives the value back. The induction is on the value; the depth is
counted down with the length of what is left to read. -/
theorem readValue_writeAt (hstyle : style.IsStandard) {value : Json} (h : value.IsReadable)
    (level : Nat) (hdepth : (writeAt style level value).length ≤ depth) {rest : Text}
    (hrest : Ends rest) :
    readValue depth (writeAt style level value ++ rest) = some (value, rest) := by
  obtain ⟨depth, rfl⟩ := Nat.exists_eq_add_one.mpr
    ((opensValue_writeAt style level h).length_pos.trans_le hdepth)
  induction h generalizing level depth rest with
  | null => rfl
  | bool b => cases b <;> rfl
  | int i =>
    rw [writeAt, ofInt_eq, readValue_sign _ (isWellFormed_ofNat _) hrest, value_ofNat]
  | finite negative h =>
    obtain ⟨parts, htext, hparts, hvalue⟩ := exists_parts_magnitude h .script
    rw [writeAt, DecimalLayout.write, htext, readValue_sign negative hparts hrest, hvalue]
  | infinite => rfl
  | text t =>
    have hread := readText_writeText style.asciiOnly t rest
    rw [writeAt]
    rw [writeText, List.cons_append, List.cons_append] at hread ⊢
    rw [readValue, if_pos rfl, hread]
    rfl
  | @list items h ih =>
    rw [writeAt, writeItems_eq] at hdepth ⊢
    have hread : ∀ item ∈ items, ∀ rest, Ends rest →
        readValue depth (writeAt style (level + 1) item ++ rest) = some (item, rest) := by
      intro item hitem rest hrest
      have hle := length_le_of_bracket hdepth hitem
      obtain ⟨depth, rfl⟩ := Nat.exists_eq_add_one.mpr
        ((opensValue_writeAt style (level + 1) (h item hitem)).length_pos.trans_le hle)
      exact ih item hitem (level + 1) hrest depth hle
    have hfirst : ∀ item ∈ items, OpensValue (writeAt style (level + 1) item) :=
      fun item hitem ↦ opensValue_writeAt style _ (h item hitem)
    obtain ⟨u, hu, hsequence⟩ := readSequence_bracket hstyle level '['
      (by decide : ']' ∈ [']', '\x7d']) hread hfirst rest
    rw [hu, readValue, if_neg (by decide), if_pos rfl, hsequence]
    rfl
  | @object members h ih =>
    rw [writeAt, writeMembers_eq] at hdepth ⊢
    have hread : ∀ member ∈ members, ∀ rest, Ends rest →
        readMember (readValue depth) (writeMember style (level + 1) member ++ rest) =
          some (member, rest) := by
      intro member hmember rest hrest
      have hle := (length_writeAt_le_writeMember style _ member).trans
        (length_le_of_bracket hdepth hmember)
      obtain ⟨depth, rfl⟩ := Nat.exists_eq_add_one.mpr
        ((opensValue_writeAt style (level + 1) (h member hmember)).length_pos.trans_le hle)
      exact readMember_writeMember hstyle (h member hmember)
        (ih member hmember (level + 1) hrest depth hle)
    have hfirst : ∀ member ∈ members, OpensValue (writeMember style (level + 1) member) :=
      fun member _ ↦ opensValue_writeMember style _ member
    obtain ⟨u, hu, hsequence⟩ := readSequence_bracket hstyle level '\x7b'
      (by decide : '\x7d' ∈ [']', '\x7d']) hread hfirst rest
    rw [hu, readValue, if_neg (by decide), if_neg (by decide), if_pos rfl, hsequence]
    rfl

/-- What was written is read. -/
theorem read_write (hstyle : style.IsStandard) {value : Json} (h : value.IsReadable) :
    read (write style value) = some value := by
  obtain ⟨c, cs, hfirst, hc, -⟩ := opensValue_writeAt style 0 h
  have hvalue : readValue (writeAt style 0 value).length (writeAt style 0 value ++ []) =
      some (value, []) := readValue_writeAt hstyle h 0 le_rfl fun c hc ↦ by cases hc
  have hskip : skip (write style value) = write style value := by
    rw [write, hfirst, skip_cons hc]
  rw [List.append_nil, ← write] at hvalue
  rw [read, hskip, hvalue]
  rfl

/-! ## Characters -/

/-- Whether a character is printable and of ASCII. -/
def isPlain (c : Char) : Bool := 0x20 ≤ c.toNat && c.toNat ≤ 0x7e

/-- Whether a text is printable and of ASCII. -/
def IsPlain (t : Text) : Prop := ∀ c ∈ t, isPlain c = true

instance (t : Text) : Decidable (IsPlain t) := inferInstanceAs (Decidable (∀ c ∈ t, _))

theorem IsPlain.append {u : Text} (ht : IsPlain t) (hu : IsPlain u) : IsPlain (t ++ u) :=
  List.forall_mem_append.mpr ⟨ht, hu⟩

theorem isPlain_hex (width n : Nat) : IsPlain (Text.hex width n) := by
  intro c hc
  have hall : ∀ d : Fin 16, isPlain (Nat.digitChar d.val) = true := by decide
  by_contra hnot
  refine Text.notMem_hex (fun d hd ↦ hnot ?_) width n hc
  exact hd ▸ hall d

theorem isPlain_escapeChar (c : Char) : IsPlain (escapeChar true c) := by
  have hunit (n : Nat) : IsPlain (unitEscape n) :=
    IsPlain.append (by decide) (isPlain_hex 4 n)
  fun_cases escapeChar true c with
  | case1 | case2 | case3 | case4 | case5 | case6 | case7 => decide
  | case8 => exact hunit _
  | case9 _ _ _ _ _ _ _ hlow hhigh =>
    refine List.forall_mem_singleton.mpr ?_
    have hle : c.toNat ≤ 0x7e := by simpa using hhigh
    simp only [isPlain, Bool.and_eq_true, decide_eq_true_eq]
    omega
  | case10 => exact hunit _
  | case11 => exact (hunit _).append (hunit _)

theorem isPlain_writeText (t : Text) : IsPlain (writeText true t) := by
  refine IsPlain.append (List.forall_mem_cons.mpr ⟨by decide, fun c hc ↦ ?_⟩) (by decide)
  obtain ⟨d, -, hcd⟩ := List.mem_flatMap.mp hc
  exact isPlain_escapeChar d c hcd

theorem isPlain_of_isDigits (h : ∀ c ∈ t, c.isDigit = true) : IsPlain t := by
  intro c hc
  have hall : ∀ d : Fin 10, isPlain (Nat.digitChar d.val) = true := by decide
  obtain ⟨d, hd, rfl⟩ := exists_digit_of_isDigit (h c hc)
  exact hall ⟨d, hd⟩

theorem isPlain_fractionText {fraction : Option Text}
    (h : ∀ digits ∈ fraction, IsDigits digits) : IsPlain (NumberParts.fractionText fraction) := by
  cases fraction with
  | none => decide
  | some digits => exact List.forall_mem_cons.mpr ⟨by decide, isPlain_of_isDigits (h digits rfl).2⟩

theorem isPlain_exponentText {exponent : Option (Bool × Text)}
    (h : ∀ power ∈ exponent, IsDigits power.2) : IsPlain (NumberParts.exponentText exponent) := by
  cases exponent with
  | none => decide
  | some power =>
    have hdigits := isPlain_of_isDigits (h power rfl).2
    refine List.forall_mem_cons.mpr ⟨by decide, List.forall_mem_cons.mpr ⟨?_, hdigits⟩⟩
    split_ifs <;> decide

theorem isPlain_sign_append (negative : Bool) {parts : NumberParts} (h : parts.IsWellFormed) :
    IsPlain (DecimalLayout.sign negative ++ parts.text) := by
  have hsign : IsPlain (DecimalLayout.sign negative) := by cases negative <;> decide
  exact hsign.append ((isPlain_of_isDigits h.whole.2).append
    ((isPlain_fractionText h.fraction).append (isPlain_exponentText h.exponent)))

theorem isPlain_bracket (level : Nat) {opening closing : Char} (hopening : isPlain opening = true)
    (hclosing : isPlain closing = true) {ts : List Text} (h : ∀ t ∈ ts, IsPlain t) :
    IsPlain (bracket .compact level opening closing ts) := by
  have hjoin : IsPlain (Text.join JsonStyle.compact.itemMark ts) := by
    intro c hc
    rcases Text.mem_of_mem_join hc with hmark | ⟨t, ht, hct⟩
    · exact (by decide : IsPlain JsonStyle.compact.itemMark) c hmark
    · exact h t ht c hct
  have hlast : IsPlain [closing] := List.forall_mem_singleton.mpr hclosing
  rw [bracket]
  split_ifs
  · exact List.forall_mem_cons.mpr ⟨hopening, hlast⟩
  · exact IsPlain.append (List.forall_mem_cons.mpr ⟨hopening, hjoin⟩) hlast

theorem isPlain_writeAt {value : Json} (h : value.IsReadable) (level : Nat) :
    IsPlain (writeAt .compact level value) := by
  induction h generalizing level with
  | null =>
    rw [writeAt]
    decide
  | bool b =>
    rw [writeAt]
    cases b <;> decide
  | int i =>
    rw [writeAt, ofInt_eq]
    exact isPlain_sign_append _ (isWellFormed_ofNat _)
  | finite negative h =>
    obtain ⟨parts, htext, hparts, -⟩ := exists_parts_magnitude h .script
    rw [writeAt, DecimalLayout.write, htext]
    exact isPlain_sign_append _ hparts
  | infinite =>
    rw [writeAt]
    decide
  | text t => exact isPlain_writeText t
  | list h ih =>
    rw [writeAt, writeItems_eq]
    refine isPlain_bracket level (by decide) (by decide) (List.forall_mem_map.mpr ?_)
    exact fun item hitem ↦ ih item hitem _
  | object h ih =>
    rw [writeAt, writeMembers_eq]
    refine isPlain_bracket level (by decide) (by decide) (List.forall_mem_map.mpr ?_)
    exact fun member hmember ↦
      ((isPlain_writeText member.1).append (by decide)).append (ih member hmember _)

end Json

end PageCompiler
