import Mathlib.Data.List.Infix
import Mathlib.Data.List.Nodup
import PageCompiler.Proofs.CutTexts
import PageCompiler.Proofs.EncodedTexts
import PageCompiler.Proofs.OrderedMaps
import PageCompiler.Proofs.References
import PageCompiler.Template.Attribute

/-!
# Properties in the markup

The attributes of a component tag go a long way: the page writes each as two data attributes of an
element, one for the value and one for the kind of the value, and the running page reads the
properties off the element. Here both ends are put together: attributes as an author may write
them, and properties as the page reads them (`Markup.readProperties`).

## One place for two things

Values and kinds share the names of the data attributes: the kind of `x` has the name that the value
of `x-type` would have. The reader takes every name that ends like a kind for one. So a property is
lost if its name ends in `-type`, and `type` itself is such a name, because the mark in front of it
ends in a hyphen. These are the only ones (`Markup.properties_read_back_iff`).
-/

namespace PageCompiler

variable {c : Char}

namespace Markup

/-! ## Attributes as written -/

/-- What the value of an attribute stands between. -/
inductive Delimiter where
  | double
  | single
  | braces
  deriving DecidableEq, Repr

namespace Delimiter

def opening : Delimiter → Char
  | double => '"'
  | single => '\''
  | braces => '\x7b'

def closing : Delimiter → Char
  | double => '"'
  | single => '\''
  | braces => '\x7d'

end Delimiter

/-- How the value of an attribute is written. -/
inductive WrittenValue where
  /-- There is none. -/
  | bare
  /-- Behind an equals sign, with blanks before and after the sign. -/
  | between (delimiter : Delimiter) (before after inside : Text)
  deriving DecidableEq, Repr

/-- An attribute as it is written. -/
structure WrittenAttribute where
  /-- The blanks in front of it. -/
  gap : Text
  name : Text
  value : WrittenValue
  deriving DecidableEq, Repr

def IsAttributeName : Text → Prop
  | [] => False
  | c :: cs => beginsAttribute c = true ∧ ∀ d ∈ cs, inAttribute d = true

instance (n : Text) : Decidable (IsAttributeName n) :=
  match n with
  | [] => inferInstanceAs (Decidable False)
  | _ :: _ => inferInstanceAs (Decidable (_ ∧ _))

namespace WrittenValue

/-- The text of a value with its equals sign. -/
def source : WrittenValue → Text
  | bare => []
  | between delimiter before after inside =>
    before ++ '=' :: (after ++ delimiter.opening :: (inside ++ [delimiter.closing]))

/-- Whether a value ends where it is closed. -/
def WellFormed : WrittenValue → Prop
  | bare => True
  | between delimiter before after inside =>
    (∀ c ∈ before, isBlank c = true) ∧ (∀ c ∈ after, isBlank c = true) ∧ delimiter.closing ∉ inside

instance (v : WrittenValue) : Decidable v.WellFormed :=
  match v with
  | bare => inferInstanceAs (Decidable True)
  | between _ _ _ _ => inferInstanceAs (Decidable (_ ∧ _ ∧ _))

/-- What a value says: a text, and the kind of value that it is. -/
def meaning : WrittenValue → Text × Text
  | bare => ("true", "boolean")
  | between .double _ _ inside | between .single _ _ inside => (inside, "string")
  | between .braces _ _ inside =>
    (Text.trim inside, if (Text.trim inside).head? = some '$' then "variable" else "literal")

end WrittenValue

namespace WrittenAttribute

/-- The text of an attribute with the blanks in front of it. -/
def source (w : WrittenAttribute) : Text := w.gap ++ (w.name ++ w.value.source)

/-- Whether an attribute is written as it should be. -/
structure WellFormed (w : WrittenAttribute) : Prop where
  gap : ∀ c ∈ w.gap, isBlank c = true
  name : IsAttributeName w.name
  value : w.value.WellFormed

instance (w : WrittenAttribute) : Decidable w.WellFormed :=
  decidable_of_iff ((∀ c ∈ w.gap, isBlank c = true) ∧ IsAttributeName w.name ∧ w.value.WellFormed)
    ⟨fun h ↦ ⟨h.1, h.2.1, h.2.2⟩, fun h ↦ ⟨h.gap, h.name, h.value⟩⟩

end WrittenAttribute

/-- The attributes of a tag, and the blanks behind them. -/
def writtenAttributes (ws : List WrittenAttribute) (last : Text) : Text :=
  ws.flatMap WrittenAttribute.source ++ last

/-- Whether attributes are written one by one, with blanks between them. -/
structure WellWritten (ws : List WrittenAttribute) (last : Text) : Prop where
  each : ∀ w ∈ ws, w.WellFormed
  /-- There are blanks in front of each but the first. -/
  apart : ∀ w ∈ ws.tail, w.gap ≠ []
  /-- Only blanks are behind the last. -/
  last : ∀ c ∈ last, isBlank c = true

/-! ## Reading attributes -/

theorem isBlank_of_beginsAttribute (h : beginsAttribute c = true) : isBlank c = false := by
  rw [beginsAttribute, Bool.or_eq_true, beq_iff_eq] at h
  rcases h with hletter | rfl
  · exact isBlank_of_isWord (Script.isWord_of_isLatinLetter hletter)
  · decide

theorem isBlank_of_inAttribute (h : inAttribute c = true) : isBlank c = false := by
  rw [inAttribute, Bool.or_eq_true, beq_iff_eq] at h
  rcases h with hword | rfl
  · exact isBlank_of_isWord hword
  · decide

theorem inAttribute_of_isBlank (h : isBlank c = true) : inAttribute c = false := by
  cases hin : inAttribute c with
  | false => rfl
  | true => exact absurd (h.symm.trans (isBlank_of_inAttribute hin)) (by decide)

theorem readAttribute_of_isBlank (h : isBlank c = true) (cs : Text) :
    readAttribute (c :: cs) = none := by
  have hbegins : ¬ beginsAttribute c = true := fun hbegins ↦
    absurd (h.symm.trans (isBlank_of_beginsAttribute hbegins)) (by decide)
  rw [readAttribute, if_neg hbegins]

theorem findAll_readAttribute_blanks {gap : Text} (h : ∀ c ∈ gap, isBlank c = true) (rest : Text) :
    Text.findAll readAttribute (gap ++ rest) = Text.findAll readAttribute rest := by
  refine Text.findAll_append_of_none fun front back heq hne ↦ ?_
  obtain ⟨c, cs, rfl⟩ := List.exists_cons_of_ne_nil hne
  exact readAttribute_of_isBlank (h c (heq ▸ by simp)) _

/-- Whether an attribute that has no value ends in front of a text. -/
def EndsAttribute (rest : Text) : Prop :=
  value? rest = none ∧ ∀ c, rest.head? = some c → inAttribute c = false

theorem value?_eq_none {rest : Text} (h : (Text.trimLeft rest).head? ≠ some '=') :
    value? rest = none := by
  have hafter : Text.after? ['='] (Text.trimLeft rest) = none := by
    cases hrest : Text.trimLeft rest with
    | nil => rfl
    | cons c cs =>
      refine Text.after?_of_ne ?_ [] cs
      rintro rfl
      exact h (hrest ▸ rfl)
  rw [value?, hafter]
  rfl

theorem endsAttribute_of_isBlank {last : Text} (h : ∀ c ∈ last, isBlank c = true) :
    EndsAttribute last := by
  refine ⟨value?_eq_none ?_, fun c hc ↦ inAttribute_of_isBlank (h c (List.mem_of_mem_head? hc))⟩
  rw [Text.trimLeft, List.dropWhile_eq_nil_iff.mpr h]
  exact (Option.some_ne_none _).symm

variable {w : WrittenAttribute} {ws : List WrittenAttribute}

/-- An attribute without a value ends in front of the next attribute. -/
theorem WrittenAttribute.WellFormed.endsAttribute (h : w.WellFormed) (hgap : w.gap ≠ [])
    (rest : Text) : EndsAttribute (w.source ++ rest) := by
  obtain ⟨b, blanks, hblanks⟩ := List.exists_cons_of_ne_nil hgap
  obtain ⟨hgap', hname, -⟩ := h
  rw [WrittenAttribute.source, List.append_assoc]
  cases hw : w.name with
  | nil =>
    rw [hw] at hname
    exact hname.elim
  | cons c cs =>
    rw [hw] at hname
    constructor
    · refine value?_eq_none ?_
      rw [Text.trimLeft_append_of_isBlank hgap', List.cons_append, List.cons_append,
        Text.trimLeft_cons_of_not_isBlank (isBlank_of_beginsAttribute hname.1), List.head?_cons]
      rintro ⟨⟩
      exact absurd hname.1 (by decide)
    · intro d hd
      rw [hblanks] at hd hgap'
      obtain rfl := Option.some.inj hd
      exact inAttribute_of_isBlank (hgap' _ List.mem_cons_self)

def WrittenAttribute.attribute (w : WrittenAttribute) : Attribute where
  name := w.name
  value :=
    match w.value with
    | .bare => .bare
    | .between .braces _ _ inside => .braced inside
    | .between _ _ _ inside => .quoted inside

theorem value?_source {delimiter : Delimiter} {before after inside : Text}
    (h : (WrittenValue.between delimiter before after inside).WellFormed) (rest : Text) :
    value? ((WrittenValue.between delimiter before after inside).source ++ rest) =
      some (if delimiter = .braces then .braced inside else .quoted inside, rest) := by
  obtain ⟨hbefore, hafter, hinside⟩ := h
  have hsource : (WrittenValue.between delimiter before after inside).source ++ rest =
      before ++ '=' :: (after ++ delimiter.opening :: (inside ++ delimiter.closing :: rest)) := by
    simp [WrittenValue.source]
  have hopening : isBlank delimiter.opening = false := by cases delimiter <;> decide
  have hequals : Text.after? ['='] (Text.trimLeft
      ('=' :: (after ++ delimiter.opening :: (inside ++ delimiter.closing :: rest)))) =
      some (after ++ delimiter.opening :: (inside ++ delimiter.closing :: rest)) := rfl
  rw [hsource, value?, Text.trimLeft_append_of_isBlank hbefore, hequals, Option.bind_eq_bind,
    Option.bind_some, Text.trimLeft_append_of_isBlank hafter,
    Text.trimLeft_cons_of_not_isBlank hopening]
  have hread := Text.upTo?_append_cons hinside rest
  cases delimiter with
  | double => exact congrArg (Option.map _) hread
  | single => exact congrArg (Option.map _) hread
  | braces => exact congrArg (Option.map _) hread

theorem readAttribute_source (hw : w.WellFormed) {rest : Text} (hrest : EndsAttribute rest) :
    readAttribute (w.name ++ (w.value.source ++ rest)) = some (w.attribute, rest) := by
  obtain ⟨gap, name, value⟩ := w
  obtain ⟨-, hname, hvalue⟩ := hw
  cases name with
  | nil => exact hname.elim
  | cons c cs =>
    have hstop : ∀ d, (value.source ++ rest).head? = some d → inAttribute d = false := by
      intro d hd
      cases value with
      | bare => exact hrest.2 d hd
      | between delimiter before after inside =>
        cases before with
        | nil =>
          obtain rfl := Option.some.inj hd
          decide
        | cons b blanks =>
          obtain rfl := Option.some.inj hd
          exact inAttribute_of_isBlank (hvalue.1 _ List.mem_cons_self)
    dsimp only at hname ⊢
    rw [List.cons_append, readAttribute, if_pos hname.1,
      Text.takeWhile_append_of_stop hname.2 hstop, Text.dropWhile_append_of_stop hname.2 hstop]
    dsimp only
    cases value with
    | bare =>
      rw [WrittenValue.source, List.nil_append, hrest.1]
      rfl
    | between delimiter before after inside =>
      rw [value?_source hvalue]
      cases delimiter <;> rfl

/-- Attributes are found as they are written. The induction is over the attributes, and each of them
ends where the blanks in front of the next begin. -/
theorem findAll_readAttribute {last : Text} (h : WellWritten ws last) :
    Text.findAll readAttribute (writtenAttributes ws last) =
      ws.map WrittenAttribute.attribute := by
  obtain ⟨heach, hapart, hlast⟩ := h
  have hnil : Text.findAll readAttribute [] = [] := by
    rw [Text.findAll, Text.pieces]
    rfl
  rw [writtenAttributes]
  induction ws with
  | nil =>
    have hblanks := findAll_readAttribute_blanks hlast []
    rwa [List.append_nil, hnil] at hblanks
  | cons w ws ih =>
    obtain ⟨hw, hws⟩ := List.forall_mem_cons.mp heach
    -- Only an attribute without a value depends on what follows it.
    have hends : EndsAttribute (ws.flatMap WrittenAttribute.source ++ last) := by
      cases ws with
      | nil => exact endsAttribute_of_isBlank hlast
      | cons v vs =>
        rw [List.flatMap_cons, List.append_assoc]
        exact (hws v List.mem_cons_self).endsAttribute (hapart v List.mem_cons_self) _
    have hne : w.name ++ w.value.source ≠ [] := by
      intro heq
      have hname := hw.name
      rw [(List.append_eq_nil_iff.mp heq).1] at hname
      exact hname
    have hread := readAttribute_source hw hends
    rw [← List.append_assoc] at hread
    obtain ⟨c, cs, hcs⟩ := List.exists_cons_of_ne_nil hne
    rw [hcs, List.cons_append] at hread
    have hlength : (ws.flatMap WrittenAttribute.source ++ last).length ≤
        (cs ++ (ws.flatMap WrittenAttribute.source ++ last)).length :=
      (List.suffix_append cs _).length_le
    rw [List.flatMap_cons, WrittenAttribute.source, List.append_assoc, List.append_assoc,
      findAll_readAttribute_blanks hw.gap, hcs, List.cons_append, Text.findAll,
      Text.pieces_cons_of_some hread hlength, List.filterMap_cons, ← Text.findAll,
      ih hws (fun v hv ↦ hapart v (List.mem_of_mem_tail hv)), List.map_cons]

/-- A text that does not end with a blank. -/
def EndsInInk (t : Text) : Prop := ∃ front c, t = front ++ [c] ∧ isBlank c = false

theorem EndsInInk.append {t : Text} (h : EndsInInk t) (front : Text) : EndsInInk (front ++ t) := by
  obtain ⟨back, c, rfl, hc⟩ := h
  exact ⟨front ++ back, c, (List.append_assoc _ _ _).symm, hc⟩

theorem WrittenAttribute.WellFormed.endsInInk (h : w.WellFormed) :
    EndsInInk (w.name ++ w.value.source) := by
  obtain ⟨gap, name, value⟩ := w
  cases value with
  | bare =>
    obtain ⟨front, c, rfl⟩ := (List.eq_nil_or_concat name).resolve_left
      (by rintro rfl; exact h.name)
    refine ⟨front, c, by simp [WrittenValue.source], ?_⟩
    have hname := h.name
    cases front with
    | nil => exact isBlank_of_beginsAttribute hname.1
    | cons d ds => exact isBlank_of_inAttribute (hname.2 c (by simp))
  | between delimiter before after inside =>
    refine EndsInInk.append ⟨before ++ '=' :: (after ++ delimiter.opening :: inside),
      delimiter.closing, by simp [WrittenValue.source], ?_⟩ name
    cases delimiter <;> decide

theorem endsInInk_flatMap (hne : ws ≠ []) (h : ∀ w ∈ ws, w.WellFormed) :
    EndsInInk (ws.flatMap WrittenAttribute.source) := by
  induction ws with
  | nil => exact absurd rfl hne
  | cons w ws ih =>
    obtain ⟨hw, hws⟩ := List.forall_mem_cons.mp h
    rw [List.flatMap_cons]
    cases ws with
    | nil =>
      rw [List.flatMap_nil, List.append_nil]
      exact hw.endsInInk.append w.gap
    | cons v vs => exact (ih (List.cons_ne_nil _ _) hws).append _

/-- An attribute without the blanks in front of it. -/
def WrittenAttribute.flush (w : WrittenAttribute) : WrittenAttribute := { w with gap := [] }

theorem WellWritten.flush {last : Text} (h : WellWritten (w :: ws) last) :
    WellWritten (w.flush :: ws) [] := by
  obtain ⟨hw, hws⟩ := List.forall_mem_cons.mp h.each
  exact ⟨List.forall_mem_cons.mpr ⟨⟨by simp [WrittenAttribute.flush], hw.name, hw.value⟩, hws⟩,
    h.apart, by simp⟩

theorem trim_writtenAttributes {last : Text} (h : WellWritten (w :: ws) last) :
    Text.trim (writtenAttributes (w :: ws) last) = writtenAttributes (w.flush :: ws) [] := by
  have hw := h.each w List.mem_cons_self
  have htext : writtenAttributes (w :: ws) last =
      w.gap ++ writtenAttributes (w.flush :: ws) [] ++ last := by
    simp [writtenAttributes, WrittenAttribute.source, WrittenAttribute.flush]
  have hleft : Text.trimLeft (writtenAttributes (w.flush :: ws) []) =
      writtenAttributes (w.flush :: ws) [] := by
    have hname := hw.name
    rw [writtenAttributes, List.flatMap_cons, WrittenAttribute.source, WrittenAttribute.flush,
      List.nil_append]
    cases hcs : w.name with
    | nil =>
      rw [hcs] at hname
      exact hname.elim
    | cons c cs =>
      rw [hcs] at hname
      exact Text.trimLeft_cons_of_not_isBlank (isBlank_of_beginsAttribute hname.1) _
  have hink : EndsInInk (writtenAttributes (w.flush :: ws) []) := by
    rw [writtenAttributes, List.append_nil]
    exact endsInInk_flatMap (List.cons_ne_nil _ _) h.flush.each
  obtain ⟨front, c, hfront, hc⟩ := hink
  rw [htext, Text.trim_append_of_isBlank hw.gap h.last, Text.trim, hleft, hfront,
    Text.trimRight_concat_of_not_isBlank hc]

theorem findAll_trim_writtenAttributes {last : Text} (h : WellWritten ws last) :
    Text.findAll readAttribute (Text.trim (writtenAttributes ws last)) =
      ws.map WrittenAttribute.attribute := by
  cases ws with
  | nil =>
    rw [writtenAttributes, List.flatMap_nil, List.nil_append, Text.trim_of_isBlank h.last,
      Text.findAll, Text.pieces]
    rfl
  | cons w ws =>
    rw [trim_writtenAttributes h, findAll_readAttribute h.flush]
    rfl

/-! ## Reading properties -/

/-- The mark that the names of all data attributes for properties begin with. -/
def propertyMark : Text := "data-prop-"

/-- The mark that the names of data attributes for kinds end with. -/
def kindMark : Text := "-type"

/-- Reads an attribute of an element as a browser does: blanks, a name up to the equals sign, and a
value between quotes, in which references stand for characters. -/
def readElementAttribute : Reader (Text × Text) := fun t ↦ do
  let (name, rest) ← Text.upTo? '=' (← Text.blanks? t)
  let (value, rest) ← Text.upTo? '"' (← Text.after? ['"'] rest)
  some ((name, Text.unescape value), rest)

def elementAttributes (t : Text) : OrderedMap Text := Text.findAll readElementAttribute t

/-- What the running page learns about a property. -/
structure PropertyReading where
  name : Text
  value : Text
  /-- The kind of value, if the element has one. -/
  kind : Option Text
  deriving DecidableEq, Repr

/-- The property that an attribute of an element gives: one that has the mark in front and does not
end like a kind. The kind is looked up among all attributes. -/
def propertyOf? (attributes : OrderedMap Text) (entry : Text × Text) : Option PropertyReading := do
  let name ← Text.after? propertyMark entry.1
  if Text.endsWith entry.1 kindMark then none
  else some ⟨name, entry.2, OrderedMap.get? attributes (propertyMark ++ name ++ kindMark)⟩

/-- The properties that the running page reads off an element. -/
def readProperties (attributes : OrderedMap Text) : List PropertyReading :=
  attributes.filterMap (propertyOf? attributes)

/-- What the running page should learn about an attribute. -/
def WrittenAttribute.property (w : WrittenAttribute) : PropertyReading :=
  ⟨w.name, w.value.meaning.1, some w.value.meaning.2⟩

/-- Whether a property has a name that the data attributes of kinds end with. -/
def EndsLikeKind (name : Text) : Prop := name = "type" ∨ kindMark <:+ name

instance (name : Text) : Decidable (EndsLikeKind name) := inferInstanceAs (Decidable (_ ∨ _))

/-- The mark in front ends in a hyphen, so that the name `type` completes the mark of a kind. -/
theorem kindMark_isSuffix_iff {name : Text} :
    kindMark <:+ propertyMark ++ name ↔ EndsLikeKind name := by
  constructor
  · intro h
    rcases List.suffix_or_suffix_of_suffix h (List.suffix_append propertyMark name) with
      hlong | hshort
    · exact .inr hlong
    · -- The name ends within the mark, so it is one of the few ends of the mark.
      have htails : ∀ t ∈ kindMark.tails, kindMark <:+ propertyMark ++ t → EndsLikeKind t := by
        decide +kernel
      exact htails name ((List.mem_tails _ _).mpr hshort) h
  · rintro (rfl | h)
    · decide
    · exact h.trans (List.suffix_append _ _)

/-! ## From the tag to the page -/

/-- An attribute of an element, with a blank in front of it. -/
def elementAttribute (name value : Text) : Text := ' ' :: (name ++ '=' :: '"' :: (value ++ ['"']))

theorem cuts_elementAttribute {name value : Text} (hequals : '=' ∉ name)
    (hblank : ∀ c, name.head? = some c → isBlank c = false) (hquote : '"' ∉ value) :
    Text.Cuts readElementAttribute (elementAttribute name value)
      [.found (name, Text.unescape value)] := by
  refine .found (List.cons_ne_nil _ _) fun rest ↦ ?_
  have htext : elementAttribute name value ++ rest =
      ' ' :: (name ++ '=' :: '"' :: (value ++ '"' :: rest)) := by simp [elementAttribute]
  have htrim : Text.trimLeft (name ++ '=' :: '"' :: (value ++ '"' :: rest)) =
      name ++ '=' :: '"' :: (value ++ '"' :: rest) := by
    cases name with
    | nil => rfl
    | cons c cs => exact Text.trimLeft_cons_of_not_isBlank (hblank c rfl) _
  have hopening : Text.after? ['"'] ('"' :: (value ++ '"' :: rest)) =
      some (value ++ '"' :: rest) := rfl
  simp only [htext, readElementAttribute, Text.blanks?_blank, htrim, Option.bind_eq_bind,
    Option.bind_some, Text.upTo?_append_cons hequals, hopening, Text.upTo?_append_cons hquote]

theorem render_eq_elementAttributes (a : Attribute) :
    a.render = elementAttribute (propertyMark ++ a.name) (Text.escape a.value.content) ++
      elementAttribute (propertyMark ++ a.name ++ kindMark) a.value.kind := by
  have hfirst : (" data-prop-" : Text) = ' ' :: propertyMark := by decide
  have hsecond : ("\" data-prop-" : Text) = '"' :: ' ' :: propertyMark := by decide
  have hkind : ("-type=\"" : Text) = kindMark ++ ['=', '"'] := by decide
  have hparts : ∀ first second third mark mark' : Text, first = ' ' :: mark →
      second = '"' :: ' ' :: mark → third = mark' ++ ['=', '"'] → ∀ name value kind : Text,
      first ++ name ++ ['=', '"'] ++ value ++ second ++ name ++ third ++ kind ++ ['"'] =
        elementAttribute (mark ++ name) value ++ elementAttribute (mark ++ name ++ mark') kind := by
    rintro _ _ _ mark mark' rfl rfl rfl name value kind
    simp [elementAttribute]
  exact hparts _ _ _ _ _ hfirst hsecond hkind _ _ _

/-- The data attributes for an attribute: its value, and the kind of its value. -/
def WrittenAttribute.entries (w : WrittenAttribute) : List (Text × Text) :=
  [(propertyMark ++ w.name, w.value.meaning.1),
    (propertyMark ++ w.name ++ kindMark, w.value.meaning.2)]

theorem meaning_eq (w : WrittenAttribute) :
    w.value.meaning = (w.attribute.value.content, w.attribute.value.kind) := by
  obtain ⟨gap, name, value⟩ := w
  cases value with
  | bare => rfl
  | between delimiter before after inside =>
    cases delimiter with
    | double => rfl
    | single => rfl
    | braces =>
      have hdollar : Text.startsWith (Text.trim inside) "$" = true ↔
          (Text.trim inside).head? = some '$' := by
        rw [Text.startsWith_iff]
        cases Text.trim inside with
        | nil => simp
        | cons c cs =>
          have hsign : ("$" : Text) = ['$'] := by decide
          rw [hsign, List.cons_prefix_cons, List.head?_cons, Option.some_inj, eq_comm]
          exact and_iff_left List.nil_prefix
      exact congrArg (Text.trim inside, ·) (if_congr hdollar.symm rfl rfl)

theorem IsAttributeName.equals_notMem {n : Text} (h : IsAttributeName n) : '=' ∉ n := by
  cases n with
  | nil => simp
  | cons c cs =>
    intro hmem
    rcases List.mem_cons.mp hmem with rfl | hmem
    · exact absurd h.1 (by decide)
    · exact absurd (h.2 _ hmem) (by decide)

theorem cuts_render (h : w.WellFormed) :
    Text.Cuts readElementAttribute w.attribute.render (w.entries.map .found) := by
  have hname : '=' ∉ propertyMark ++ w.name := by
    rw [List.mem_append, not_or]
    exact ⟨by decide, h.name.equals_notMem⟩
  have hmark : ∀ t c, (propertyMark ++ t).head? = some c → isBlank c = false := by
    rintro t c ⟨⟩
    decide
  -- Kinds are written without references, and need none.
  have hkinds : ∀ v : AttributeValue, '"' ∉ v.kind ∧ Text.escape v.kind = v.kind := by
    intro v
    cases v with
    | bare => decide
    | quoted t =>
      have hstring : '"' ∉ ("string" : Text) ∧ Text.escape "string" = "string" := by decide
      exact hstring
    | braced t =>
      have hboth : ∀ b : Bool, let kind := if b then ("variable" : Text) else "literal"
          '"' ∉ kind ∧ Text.escape kind = kind := by decide
      exact hboth _
  obtain ⟨hquote, hescape⟩ := hkinds w.attribute.value
  have hunescape := Text.unescape_escape w.attribute.value.kind
  rw [hescape] at hunescape
  have hvalue := cuts_elementAttribute hname (hmark w.name)
    (Text.quote_notMem_escape w.attribute.value.content)
  have hkind : Text.Cuts readElementAttribute
      (elementAttribute (propertyMark ++ w.name ++ kindMark) w.attribute.value.kind)
      [.found (propertyMark ++ w.name ++ kindMark, Text.unescape w.attribute.value.kind)] := by
    refine cuts_elementAttribute ?_ ?_ hquote
    · rw [List.mem_append, not_or]
      exact ⟨hname, by decide⟩
    · rw [List.append_assoc]
      exact hmark _
  rw [Text.unescape_escape] at hvalue
  rw [hunescape] at hkind
  rw [render_eq_elementAttributes, WrittenAttribute.entries, meaning_eq]
  exact hvalue.append hkind

theorem elementAttributes_componentAttributes {last : Text} (h : WellWritten ws last) :
    elementAttributes (componentAttributes (writtenAttributes ws last)) =
      ws.flatMap WrittenAttribute.entries := by
  have hcuts : ∀ vs : List WrittenAttribute, (∀ v ∈ vs, v.WellFormed) →
      Text.Cuts readElementAttribute ((vs.map WrittenAttribute.attribute).flatMap Attribute.render)
        ((vs.flatMap WrittenAttribute.entries).map .found) := by
    intro vs
    induction vs with
    | nil => exact fun _ ↦ .nil
    | cons v vs ih =>
      intro hwell
      obtain ⟨hv, hvs⟩ := List.forall_mem_cons.mp hwell
      rw [List.map_cons, List.flatMap_cons, List.flatMap_cons, List.map_append]
      exact (cuts_render hv).append (ih hvs)
  rw [elementAttributes, Text.findAll_eq_filterMap, componentAttributes,
    findAll_trim_writtenAttributes h, (hcuts ws h.each).pieces_eq, List.filterMap_map]
  exact List.filterMap_some

theorem propertyOf?_kind (attributes : OrderedMap Text) (name kind : Text) :
    propertyOf? attributes (propertyMark ++ name ++ kindMark, kind) = none := by
  have hends : Text.endsWith (propertyMark ++ name ++ kindMark) kindMark = true :=
    Text.endsWith_iff.mpr (List.suffix_append _ _)
  rw [propertyOf?, List.append_assoc, Text.after?_append, ← List.append_assoc, hends]
  rfl

theorem propertyOf?_value (attributes : OrderedMap Text) {name : Text} (h : ¬ EndsLikeKind name)
    (value : Text) : propertyOf? attributes (propertyMark ++ name, value) =
      some ⟨name, value, OrderedMap.get? attributes (propertyMark ++ name ++ kindMark)⟩ := by
  have hends : ¬ Text.endsWith (propertyMark ++ name) kindMark = true :=
    (Text.endsWith_iff.trans kindMark_isSuffix_iff).not.mpr h
  rw [propertyOf?, Text.after?_append, Option.bind_eq_bind, Option.bind_some, if_neg hends]

section Entries

variable {ws : List WrittenAttribute} (hkinds : ∀ w ∈ ws, ¬ EndsLikeKind w.name)

include hkinds

/-- Where no name ends like a kind, a value and a kind never share their place. -/
theorem nodup_keys_entries (hnames : (ws.map WrittenAttribute.name).Nodup) :
    (OrderedMap.keys (ws.flatMap WrittenAttribute.entries)).Nodup := by
  have hapart : ∀ w ∈ ws, ∀ name, propertyMark ++ w.name ≠ propertyMark ++ name ++ kindMark := by
    intro w hw name heq
    exact hkinds w hw (kindMark_isSuffix_iff.mp (heq ▸ List.suffix_append _ _))
  rw [OrderedMap.keys, List.map_flatMap, List.nodup_flatMap]
  constructor
  · intro w hw
    exact List.nodup_cons.mpr ⟨fun hmem ↦ hapart w hw _ (List.mem_singleton.mp hmem), by simp⟩
  · refine (List.pairwise_map.mp hnames).imp_of_mem fun {v w} hv hw hne key hkey hkey' ↦ ?_
    simp only [WrittenAttribute.entries, List.map_cons, List.map_nil, List.mem_cons,
      List.not_mem_nil, or_false] at hkey hkey'
    rcases hkey with rfl | rfl <;> rcases hkey' with heq | heq
    · exact hne (List.append_cancel_left heq)
    · exact hapart v hv _ heq
    · exact hapart w hw _ heq.symm
    · exact hne (List.append_cancel_left (List.append_cancel_right heq))

theorem readProperties_entries (hnames : (ws.map WrittenAttribute.name).Nodup) :
    readProperties (ws.flatMap WrittenAttribute.entries) = ws.map WrittenAttribute.property := by
  have hnodup := nodup_keys_entries hkinds hnames
  -- The kinds are looked up among all attributes, while the properties are gone through one by one.
  have hread : ∀ vs ⊆ ws, (vs.flatMap WrittenAttribute.entries).filterMap
      (propertyOf? (ws.flatMap WrittenAttribute.entries)) = vs.map WrittenAttribute.property := by
    intro vs
    induction vs with
    | nil => exact fun _ ↦ rfl
    | cons v vs ih =>
      intro hsubset
      obtain ⟨hv, hvs⟩ := List.cons_subset.mp hsubset
      have hmem : (propertyMark ++ v.name ++ kindMark, v.value.meaning.2) ∈
          ws.flatMap WrittenAttribute.entries :=
        List.mem_flatMap.mpr ⟨v, hv, List.mem_cons_of_mem _ List.mem_cons_self⟩
      rw [List.flatMap_cons, WrittenAttribute.entries, List.cons_append, List.cons_append,
        List.nil_append, List.filterMap_cons_some (propertyOf?_value _ (hkinds v hv) _),
        List.filterMap_cons_none (propertyOf?_kind _ _ _), OrderedMap.get?_of_mem hnodup hmem,
        ih hvs, List.map_cons, WrittenAttribute.property]
  exact hread ws (List.Subset.refl ws)

end Entries

theorem not_endsLikeKind_of_mem_readProperties {attributes : OrderedMap Text}
    {p : PropertyReading} (h : p ∈ readProperties attributes) : ¬ EndsLikeKind p.name := by
  obtain ⟨entry, -, hentry⟩ := List.mem_filterMap.mp h
  simp only [propertyOf?, Option.bind_eq_bind, Option.bind_eq_some_iff] at hentry
  obtain ⟨name, hname, hsome⟩ := hentry
  split_ifs at hsome with hends
  obtain rfl := Option.some.inj hsome
  rwa [Text.endsWith_iff, Text.after?_eq_some_iff.mp hname, kindMark_isSuffix_iff] at hends

/-- **Properties come back unless they are named like kinds.** Whatever attributes an author writes,
under different names and with blanks between them, the running page reads off the element just what
was written, with names, values and kinds in order, and no two attributes of the element share a
name, if and only if no name is `type` or ends in `-type`. -/
theorem properties_read_back_iff {ws : List WrittenAttribute} {last : Text}
    (h : WellWritten ws last) (hnames : (ws.map WrittenAttribute.name).Nodup) :
    let attributes := elementAttributes (componentAttributes (writtenAttributes ws last))
    readProperties attributes = ws.map WrittenAttribute.property ∧
        (OrderedMap.keys attributes).Nodup ↔
      ∀ w ∈ ws, ¬ EndsLikeKind w.name := by
  intro attributes
  have hattributes : attributes = ws.flatMap WrittenAttribute.entries :=
    elementAttributes_componentAttributes h
  constructor
  · rintro ⟨hread, -⟩ w hw
    have hmem : w.property ∈ readProperties attributes := hread ▸ List.mem_map_of_mem hw
    exact not_endsLikeKind_of_mem_readProperties hmem
  · intro hkinds
    rw [hattributes]
    exact ⟨readProperties_entries hkinds hnames, nodup_keys_entries hkinds hnames⟩

/-- Attributes of every kind, with text that looks like signs, references and other attributes. -/
def variedAttributes : List WrittenAttribute :=
  [⟨[], "open", .bare⟩,
   ⟨" ", "label", .between .double [] [] "a=\x7b$b\x7d &amp; 'c' d='e'"⟩,
   ⟨"\n  ", "kind-type-of", .between .single " " "\t" "\">"⟩,
   ⟨" ", "_n", .between .braces [] [] " $n "⟩,
   ⟨" ", "list", .between .braces [] " " "[\x7b\"a\": 1]"⟩]

theorem variedAttributes_read_back :
    writtenAttributes variedAttributes " " =
      ("open label=\"a=\x7b$b\x7d &amp; 'c' d='e'\"\n  kind-type-of =\t'\">' _n=\x7b $n \x7d" ++
        " list= \x7b[\x7b\"a\": 1]\x7d " : Text) ∧
    (∀ w ∈ variedAttributes, ¬ EndsLikeKind w.name) ∧
    readProperties (elementAttributes (componentAttributes
      (writtenAttributes variedAttributes " "))) =
      [⟨"open", "true", some "boolean"⟩,
       ⟨"label", "a=\x7b$b\x7d &amp; 'c' d='e'", some "string"⟩,
       ⟨"kind-type-of", "\">", some "string"⟩,
       ⟨"_n", "$n", some "variable"⟩,
       ⟨"list", "[\x7b\"a\": 1]", some "literal"⟩] := by
  have hwell : WellWritten variedAttributes " " :=
    ⟨by decide +kernel, by decide +kernel, by decide⟩
  have hkinds : ∀ w ∈ variedAttributes, ¬ EndsLikeKind w.name := by decide +kernel
  refine ⟨by decide +kernel, hkinds, ?_⟩
  rw [((properties_read_back_iff hwell (by decide +kernel)).mpr hkinds).1]
  decide +kernel

/-- **A property named `type` is lost.** Where `x-type` is a property as well, its value has the
name that the kind of `x` has, and passes for it. -/
theorem type_property_lost :
    let single := [WrittenAttribute.mk [] "type" (.between .double [] [] "submit")]
    let pair := [WrittenAttribute.mk [] "x-type" (.between .double [] [] "a"),
      WrittenAttribute.mk " " "x" (.between .double [] [] "b")]
    let attributes := fun ws ↦ elementAttributes (componentAttributes (writtenAttributes ws []))
    (∀ ws ∈ [single, pair], WellWritten ws [] ∧ (ws.map WrittenAttribute.name).Nodup) ∧
      writtenAttributes single [] = ("type=\"submit\"" : Text) ∧
      readProperties (attributes single) = [] ∧
      writtenAttributes pair [] = ("x-type=\"a\" x=\"b\"" : Text) ∧
      readProperties (attributes pair) = [⟨"x", "b", some "a"⟩] ∧
      ¬ (OrderedMap.keys (attributes pair)).Nodup := by
  intro single pair attributes
  refine ⟨?_, by decide +kernel⟩
  refine List.forall_mem_cons.mpr ⟨⟨⟨?_, ?_, ?_⟩, ?_⟩,
    List.forall_mem_singleton.mpr ⟨⟨?_, ?_, ?_⟩, ?_⟩⟩
  all_goals decide +kernel

end Markup

end PageCompiler
