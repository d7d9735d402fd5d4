import PageCompiler.Document
import PageCompiler.Proofs.EncodedTexts

/-!
# Heads of documents

A document is put together from pieces of text, and the metadata of a page stands in its head as the
text of an element and as the values of attributes. Here the head is read as a browser reads it,
character by character (`Document.read`): a text goes on to the next `<`, a value between quotes to
the next quote of its kind, and the references in both are undone. The reader knows nothing of what
was written.

Whatever the metadata, the markup and the script of a page are, its head reads as the fixed tags,
the title, and one tag for each key that is there or has a default, in a fixed order, with the
values as they were (`Document.head_render`). So no value ends its attribute or its element or adds
a tag.

The head is a row of texts, each with the tag behind it. One such pair is read off the beginning of
a document in one lemma (`Document.readFrom_row`), and the row by induction.
-/

namespace PageCompiler

namespace Document

/-! ## Reading -/

/-- A part of a document. The name of a closing tag begins with a slash. -/
inductive Part where
  /-- What stands between two tags. -/
  | text (content : Text)
  /-- A tag with its attributes. -/
  | tag (name : Text) (attributes : List (Text × Text))
  deriving DecidableEq, Repr

/-- Whether a character divides the parts of a tag. -/
def isSpace (c : Char) : Bool := [' ', '\t', '\n', '\r', '\x0c'].contains c

/-- Where the reader is. Of a tag it has the name and the attributes so far. -/
inductive Reading where
  /-- Between two tags, with the text so far. -/
  | text (raw : Text)
  /-- In the name of a tag. -/
  | name (name : Text)
  /-- In a tag, between its attributes. -/
  | inside (name : Text) (attributes : List (Text × Text))
  /-- In the name of an attribute. -/
  | label (name : Text) (attributes : List (Text × Text)) (label : Text)
  /-- Behind the equals sign of an attribute. -/
  | equals (name : Text) (attributes : List (Text × Text)) (label : Text)
  /-- In a value between quotes. -/
  | quoted (name : Text) (attributes : List (Text × Text)) (label : Text) (quote : Char)
      (raw : Text)
  /-- In a value without quotes. -/
  | bare (name : Text) (attributes : List (Text × Text)) (label raw : Text)
  deriving DecidableEq, Repr

namespace Reading

/-- The parts that end with a character, and where the reader is behind it. -/
def step : Reading → Char → List Part × Reading
  | .text raw, c =>
    if c = '<' then ([.text (Text.unescape raw)], .name []) else ([], .text (raw ++ [c]))
  | .name n, c =>
    if c = '>' then ([.tag n []], .text [])
    else if isSpace c then ([], .inside n [])
    else ([], .name (n ++ [c]))
  | .inside n attributes, c =>
    if c = '>' then ([.tag n attributes], .text [])
    else if isSpace c then ([], .inside n attributes)
    else ([], .label n attributes [c])
  | .label n attributes l, c =>
    if c = '>' then ([.tag n (attributes ++ [(l, [])])], .text [])
    else if isSpace c then ([], .inside n (attributes ++ [(l, [])]))
    else if c = '=' then ([], .equals n attributes l)
    else ([], .label n attributes (l ++ [c]))
  | .equals n attributes l, c =>
    if c = '>' then ([.tag n (attributes ++ [(l, [])])], .text [])
    else if isSpace c then ([], .equals n attributes l)
    else if c = '"' ∨ c = '\'' then ([], .quoted n attributes l c [])
    else ([], .bare n attributes l [c])
  | .quoted n attributes l quote raw, c =>
    if c = quote then ([], .inside n (attributes ++ [(l, Text.unescape raw)]))
    else ([], .quoted n attributes l quote (raw ++ [c]))
  | .bare n attributes l raw, c =>
    if c = '>' then ([.tag n (attributes ++ [(l, Text.unescape raw)])], .text [])
    else if isSpace c then ([], .inside n (attributes ++ [(l, Text.unescape raw)]))
    else ([], .bare n attributes l (raw ++ [c]))

/-- The parts at the end of a document: a tag that is not closed is none. -/
def finish : Reading → List Part
  | .text raw => [.text (Text.unescape raw)]
  | _ => []

end Reading

/-- The parts of the rest of a document. -/
def readFrom (r : Reading) : Text → List Part
  | [] => r.finish
  | c :: cs => (r.step c).1 ++ readFrom (r.step c).2 cs

def read (t : Text) : List Part := readFrom (.text []) t

def head (parts : List Part) : List Part :=
  ((parts.dropWhile (· != .tag "head" [])).drop 1).takeWhile (· != .tag "/head" [])

/-! ## What the head should hold -/

/-- What a key of the metadata stands for: a tag that is named by one of its attributes. -/
structure Prescription where
  key : Text
  /-- The attribute that names the tag. -/
  label : Text
  name : Text
  /-- The content where the page does not have the key. Without it there is no tag then. -/
  default : Option Text

/-- The tags for the metadata of a page, in their order. -/
def prescriptions : List Prescription :=
  [⟨"description", "name", "description", some "MTM Application"⟩,
   ⟨"route", "name", "route", some "/"⟩,
   ⟨"keywords", "name", "keywords", none⟩,
   ⟨"author", "name", "author", none⟩,
   ⟨"ogTitle", "property", "og:title", none⟩,
   ⟨"ogDescription", "property", "og:description", none⟩,
   ⟨"ogImage", "property", "og:image", none⟩]

def metaTag (label name content : Text) : Part :=
  .tag "meta" [(label, name), (("content" : Text), content)]

/-- The tags that a page should have for its metadata. -/
def prescribed (fields : FrontMatter) : List Part :=
  prescriptions.filterMap fun p ↦
    ((OrderedMap.get? fields p.key).or p.default).map (metaTag p.label p.name)

/-! ## Rows of tags -/

def writtenAttribute (a : Text × Text) : Text :=
  ' ' :: (a.1 ++ '=' :: '"' :: (Text.escape a.2 ++ ['"']))

/-- A text and the tag behind it. -/
structure Row where
  text : Text
  name : Text
  attributes : List (Text × Text)
  deriving DecidableEq

/-- Whether a text can be the name of a tag or of an attribute. -/
def IsLabel (l : Text) : Prop := l ≠ [] ∧ ∀ c ∈ l, c ≠ '>' ∧ c ≠ '=' ∧ isSpace c = false

instance (l : Text) : Decidable (IsLabel l) := inferInstanceAs (Decidable (_ ∧ _))

namespace Row

def written (row : Row) : Text :=
  Text.escape row.text ++ '<' :: (row.name ++ (row.attributes.flatMap writtenAttribute ++ ['>']))

/-- What is read of them. -/
def parts (row : Row) : List Part := [.text row.text, .tag row.name row.attributes]

/-- Whether all names are names. -/
def WellFormed (row : Row) : Prop := IsLabel row.name ∧ ∀ a ∈ row.attributes, IsLabel a.1

instance (row : Row) : Decidable row.WellFormed := inferInstanceAs (Decidable (_ ∧ _))

end Row

section Rows

variable {n l t : Text} {attributes : List (Text × Text)}

/-- Where the reader only collects characters it collects all of them. -/
theorem readFrom_collect (collect : Text → Reading)
    (hstep : ∀ raw, ∀ c ∈ t, (collect raw).step c = ([], collect (raw ++ [c]))) (raw rest : Text) :
    readFrom (collect raw) (t ++ rest) = readFrom (collect (raw ++ t)) rest := by
  induction t generalizing raw with
  | nil => rw [List.nil_append, List.append_nil]
  | cons c cs ih =>
    have hcs := fun raw d hd ↦ hstep raw d (List.mem_cons_of_mem c hd)
    rw [List.cons_append, readFrom, hstep raw c List.mem_cons_self, List.nil_append, ih hcs,
      List.append_assoc, List.singleton_append]

theorem readFrom_text (h : '<' ∉ t) (rest : Text) :
    readFrom (.text []) (t ++ '<' :: rest) =
      .text (Text.unescape t) :: readFrom (.name []) rest := by
  have hcollect := readFrom_collect .text (t := t) (fun raw c hc ↦ if_neg (by
    rintro rfl
    exact h hc)) [] ('<' :: rest)
  rw [hcollect]
  rfl

theorem readFrom_name (h : IsLabel n) (rest : Text) :
    readFrom (.name []) (n ++ rest) = readFrom (.name n) rest :=
  readFrom_collect .name (fun raw c hc ↦ by
    obtain ⟨hclose, -, hspace⟩ := h.2 c hc
    rw [Reading.step, if_neg hclose, hspace, if_neg Bool.false_ne_true]) [] rest

theorem readFrom_label (h : IsLabel l) (rest : Text) :
    readFrom (.inside n attributes) (l ++ '=' :: rest) =
      readFrom (.equals n attributes l) rest := by
  obtain ⟨hne, hall⟩ := h
  obtain ⟨first, more, rfl⟩ := List.exists_cons_of_ne_nil hne
  obtain ⟨⟨hclose, -, hspace⟩, hmore⟩ := List.forall_mem_cons.mp hall
  have hcollect := readFrom_collect (.label n attributes) (t := more) (fun raw c hc ↦ by
    obtain ⟨hclose, heq, hspace⟩ := hmore c hc
    rw [Reading.step, if_neg hclose, hspace, if_neg Bool.false_ne_true, if_neg heq]) [first]
    ('=' :: rest)
  rw [List.cons_append, readFrom, Reading.step, if_neg hclose, hspace, if_neg Bool.false_ne_true,
    List.nil_append, hcollect]
  rfl

theorem readFrom_value (v rest : Text) :
    readFrom (.equals n attributes l) ('"' :: (Text.escape v ++ '"' :: rest)) =
      readFrom (.inside n (attributes ++ [(l, v)])) rest := by
  have hcollect := readFrom_collect (.quoted n attributes l '"') (t := Text.escape v)
    (fun raw c hc ↦ if_neg (by
      rintro rfl
      exact Text.quote_notMem_escape v hc)) [] ('"' :: rest)
  rw [readFrom, Reading.step, if_neg (by decide), if_neg (by decide), if_pos (.inl rfl),
    List.nil_append, hcollect, readFrom, Reading.step, if_pos rfl, List.nil_append,
    List.nil_append, Text.unescape_escape]

theorem readFrom_attributes (attributes : List (Text × Text)) {more : List (Text × Text)}
    (h : ∀ a ∈ more, IsLabel a.1) (rest : Text) :
    readFrom (.inside n attributes) (more.flatMap writtenAttribute ++ '>' :: rest) =
      .tag n (attributes ++ more) :: readFrom (.text []) rest := by
  induction more generalizing attributes with
  | nil =>
    rw [List.append_nil]
    rfl
  | cons a more ih =>
    obtain ⟨ha, hmore⟩ := List.forall_mem_cons.mp h
    have hread : ∀ rest, readFrom (.inside n attributes) (writtenAttribute a ++ rest) =
        readFrom (.inside n (attributes ++ [a])) rest := by
      intro rest
      have hsplit : writtenAttribute a ++ rest =
          ' ' :: (a.1 ++ '=' :: ('"' :: (Text.escape a.2 ++ '"' :: rest))) := by
        simp [writtenAttribute]
      rw [hsplit, readFrom, Reading.step, if_neg (by decide), if_pos (by decide), List.nil_append,
        readFrom_label ha, readFrom_value]
    rw [List.flatMap_cons, List.append_assoc, hread, ih _ hmore, List.append_assoc,
      List.singleton_append]

/-- **A text and the tag behind it are read back.** -/
theorem readFrom_row {row : Row} (h : row.WellFormed) (rest : Text) :
    readFrom (.text []) (row.written ++ rest) = row.parts ++ readFrom (.text []) rest := by
  obtain ⟨hname, hattributes⟩ := h
  have hsplit : row.written ++ rest = Text.escape row.text ++
      '<' :: (row.name ++ (row.attributes.flatMap writtenAttribute ++ '>' :: rest)) := by
    simp [Row.written]
  have htag : readFrom (.name row.name) (row.attributes.flatMap writtenAttribute ++ '>' :: rest) =
      .tag row.name row.attributes :: readFrom (.text []) rest := by
    cases hrow : row.attributes with
    | nil => rfl
    | cons a more =>
      -- Behind the name the first blank only says that the name has ended.
      rw [hrow] at hattributes
      exact readFrom_attributes [] hattributes rest
  rw [hsplit, readFrom_text (Text.lt_notMem_escape _), Text.unescape_escape, readFrom_name hname,
    htag]
  rfl

theorem readFrom_rows {rows : List Row} (h : ∀ row ∈ rows, row.WellFormed) (rest : Text) :
    readFrom (.text []) (rows.flatMap Row.written ++ rest) =
      rows.flatMap Row.parts ++ readFrom (.text []) rest := by
  induction rows with
  | nil => rfl
  | cons row rows ih =>
    obtain ⟨hrow, hrows⟩ := List.forall_mem_cons.mp h
    rw [List.flatMap_cons, List.append_assoc, readFrom_row hrow, ih hrows, List.flatMap_cons,
      List.append_assoc]

end Rows

/-! ## The rows of a document -/

/-- The line break and the indentation in front of a tag of the head. -/
def indent : Text := "\n    "

def Meta.row (m : Meta) : Row := ⟨indent, "meta", [(m.label, m.name), ⟨"content", m.content⟩]⟩

def openingRows : List Row := [⟨['\n'], "html", [⟨"lang", "en"⟩]⟩, ⟨['\n'], "head", []⟩]

/-- The rows at the beginning of a head, which all pages have. -/
def fixedRows : List Row :=
  [⟨indent, "meta", [⟨"charset", "UTF-8"⟩]⟩,
   ⟨indent, "meta",
    [⟨"name", "viewport"⟩, ⟨"content", "width=device-width, initial-scale=1.0"⟩]⟩,
   ⟨indent, "title", []⟩]

def headRows (fields : FrontMatter) : List Row :=
  fixedRows ++ ⟨title fields, "/title", []⟩ :: (metadata fields).map Meta.row

def closingRow : Row := ⟨['\n'], "/head", []⟩

theorem metadata_eq (fields : FrontMatter) :
    metadata fields = prescriptions.filterMap fun p ↦
      ((OrderedMap.get? fields p.key).or p.default).map
        fun content ↦ ⟨p.label, p.name, content⟩ := by
  have hdefault : ∀ (label name default : Text) (o : Option Text),
      ((o.or (some default)).map fun content ↦ (⟨label, name, content⟩ : Meta)).toList =
        [⟨label, name, o.getD default⟩] := by
    intro label name default o
    cases o <;> rfl
  have hnone : ∀ (label name : Text) (o : Option Text),
      ((o.or none).map fun content ↦ (⟨label, name, content⟩ : Meta)).toList =
        o.toList.map fun content ↦ ⟨label, name, content⟩ := by
    intro label name o
    cases o <;> rfl
  have hassoc : ∀ (a b : Meta) (o₁ o₂ o₃ o₄ o₅ : List Meta), [a, b] ++ o₁ ++ o₂ ++ o₃ ++ o₄ ++ o₅ =
      [a] ++ ([b] ++ (o₁ ++ (o₂ ++ (o₃ ++ (o₄ ++ o₅))))) := by simp
  rw [List.filterMap_eq_flatMap_toList, prescriptions]
  simp only [List.flatMap_cons, List.flatMap_nil, hdefault, hnone, List.append_nil]
  exact hassoc _ _ _ _ _ _ _

theorem of_mem_metadata {fields : FrontMatter} {m : Meta} (h : m ∈ metadata fields) :
    IsLabel m.label ∧ Text.escape m.name = m.name := by
  rw [metadata_eq, List.mem_filterMap] at h
  obtain ⟨p, hp, hm⟩ := h
  obtain ⟨content, -, rfl⟩ := Option.map_eq_some_iff.mp hm
  have hall : ∀ p ∈ prescriptions, IsLabel p.label ∧ Text.escape p.name = p.name := by decide
  exact hall p hp

theorem written_row {m : Meta} (h : Text.escape m.name = m.name) :
    m.row.written = indent ++ m.render := by
  have hindent : Text.escape indent = indent := by decide
  have hopening : ("<meta " : Text) = '<' :: ("meta" ++ [' ']) := by decide
  have hname : ("=\"" : Text) = ['=', '"'] := by decide
  have hcontent : ("\" content=\"" : Text) = '"' :: ' ' :: ("content" ++ ['=', '"']) := by decide
  have hclosing : ("\">" : Text) = ['"', '>'] := by decide
  unfold Meta.render Row.written Meta.row
  dsimp only
  generalize ("<meta " : Text) = opening, ("=\"" : Text) = sign, ("\" content=\"" : Text) = middle,
    ("\">" : Text) = closing, ("meta" : Text) = tag, ("content" : Text) = label at *
  subst hopening hname hcontent hclosing
  simp [writtenAttribute, hindent, h]

theorem lineFeed_unlines {ls : List Text} (h : ls ≠ []) :
    '\n' :: Text.unlines ls = ls.flatMap ('\n' :: ·) := by
  induction ls with
  | nil => exact absurd rfl h
  | cons first rest ih =>
    cases rest with
    | nil => simp [Text.unlines, Text.join]
    | cons second rest =>
      rw [Text.unlines_cons first (List.cons_ne_nil _ _), List.flatMap_cons,
        ← ih (List.cons_ne_nil _ _), List.cons_append]

theorem metadata_ne_nil (fields : FrontMatter) : metadata fields ≠ [] := List.cons_ne_nil _ _

theorem flatMap_written_metadata (fields : FrontMatter) :
    '\n' :: Text.unlines ((metaTags fields).map fun tag ↦ "    " ++ tag) =
      ((metadata fields).map Meta.row).flatMap Row.written := by
  rw [lineFeed_unlines (by simpa [metaTags] using metadata_ne_nil fields), metaTags, List.map_map,
    List.flatMap_map, List.flatMap_map]
  refine List.flatMap_congr fun m hm ↦ ?_
  rw [written_row (of_mem_metadata hm).2]
  rfl

/-- A document is its declaration, the rows up to the end of its head, and what stands behind it. -/
theorem render_eq (fields : FrontMatter) (body scriptTag : Text) :
    ∃ rest, render fields body scriptTag = "<!DOCTYPE html>" ++
      (openingRows.flatMap Row.written ++
        ((headRows fields).flatMap Row.written ++ (closingRow.written ++ rest))) := by
  have hopening : "<!DOCTYPE html>\n<html lang=\"en\">\n<head>\n    <meta charset=\"UTF-8\">\n" ++
      "    <meta name=\"viewport\" content=\"width=device-width, initial-scale=1.0\">\n" ++
      "    <title>" =
      ("<!DOCTYPE html>" ++ (openingRows.flatMap Row.written ++ fixedRows.flatMap Row.written) :
        Text) := by
    decide +kernel
  have htitle : Text.escape (title fields) ++ ("</title>\n" : Text) =
      Row.written ⟨title fields, "/title", []⟩ ++ ['\n'] :=
    (List.append_assoc (Text.escape (title fields)) ("</title>" : Text) ['\n']).symm
  have hclosing : ("\n</head>\n<body>\n    <div id=\"app\">" : Text) =
      closingRow.written ++ "\n<body>\n    <div id=\"app\">" := by decide +kernel
  -- Only the equations above look into the fixed texts; the rest is regrouping, for any texts.
  have hassoc : ∀ o e t u c b d s f : Text, o ++ e ++ t ++ u ++ c ++ b ++ d ++ s ++ f =
      o ++ ((e ++ t) ++ (u ++ (c ++ (b ++ d ++ s ++ f)))) := by simp
  have hregroup : ∀ d o f t u c r : Text, (d ++ (o ++ f)) ++ ((t ++ ['\n']) ++ (u ++ (c ++ r))) =
      d ++ (o ++ ((f ++ (t ++ '\n' :: u)) ++ (c ++ r))) := by simp
  refine ⟨"\n<body>\n    <div id=\"app\">" ++
    (body ++ "</div>\n    " ++ scriptTag ++ "\n</body>\n</html>\n"),
    (hassoc _ _ _ _ _ _ _ _ _).trans ?_⟩
  rw [hopening, htitle, hclosing, List.append_assoc closingRow.written, headRows,
    List.flatMap_append, List.flatMap_cons, ← flatMap_written_metadata]
  exact hregroup _ _ _ _ _ _ _

/-! ## Heads -/

theorem of_mem_headRows {fields : FrontMatter} {row : Row} (h : row ∈ headRows fields) :
    row.WellFormed ∧ row.name ≠ "/head" := by
  have hfixed : ∀ row ∈ fixedRows, row.WellFormed ∧ row.name ≠ "/head" := by decide
  have htitle : IsLabel "/title" ∧ ("/title" : Text) ≠ "/head" := by decide
  have hmeta : IsLabel "meta" ∧ ("meta" : Text) ≠ "/head" := by decide
  have hcontent : IsLabel "content" := by decide
  rcases List.mem_append.mp h with h | h
  · exact hfixed row h
  rcases List.mem_cons.mp h with rfl | h
  · exact ⟨⟨htitle.1, List.forall_mem_nil _⟩, htitle.2⟩
  · obtain ⟨m, hm, rfl⟩ := List.mem_map.mp h
    have hattributes : ∀ a ∈ m.row.attributes, IsLabel a.1 :=
      List.forall_mem_cons.mpr ⟨(of_mem_metadata hm).1, List.forall_mem_singleton.mpr hcontent⟩
    exact ⟨⟨hmeta.1, hattributes⟩, hmeta.2⟩

def doctypeParts : List Part := [.text [], .tag "!DOCTYPE" [⟨"html", []⟩]]

theorem read_render (fields : FrontMatter) (body scriptTag : Text) :
    ∃ rest, read (render fields body scriptTag) =
      doctypeParts ++ openingRows.flatMap Row.parts ++
        ((headRows fields).flatMap Row.parts ++ (closingRow.parts ++ rest)) := by
  obtain ⟨rest, hrest⟩ := render_eq fields body scriptTag
  have hempty : Text.unescape [] = [] := Text.unescape_escape []
  have hdoctype : ∀ t, readFrom (.text []) ("<!DOCTYPE html>" ++ t) =
      doctypeParts ++ readFrom (.text []) t := fun t ↦
    congrArg (Part.text · :: Part.tag "!DOCTYPE" [⟨"html", []⟩] :: readFrom (.text []) t) hempty
  have hopening : ∀ row ∈ openingRows, row.WellFormed := by decide
  have hclosing : closingRow.WellFormed := by decide
  refine ⟨readFrom (.text []) rest, ?_⟩
  rw [read, hrest, hdoctype, readFrom_rows hopening,
    readFrom_rows fun row hrow ↦ (of_mem_headRows hrow).1, readFrom_row hclosing,
    List.append_assoc]

theorem prescribed_eq (fields : FrontMatter) :
    prescribed fields = (metadata fields).map fun m ↦ metaTag m.label m.name m.content := by
  rw [metadata_eq, List.map_filterMap]
  refine List.filterMap_congr fun p _ ↦ ?_
  rw [Option.map_map]
  rfl

/-- **The head of a document holds what is prescribed**: read back, it is the two fixed tags, the
title and the prescribed tags, whatever the metadata, the markup and the script are. -/
theorem head_render (fields : FrontMatter) (body scriptTag : Text) :
    head (read (render fields body scriptTag)) =
      [.text indent, .tag "meta" [⟨"charset", "UTF-8"⟩],
       .text indent, .tag "meta"
         [⟨"name", "viewport"⟩, ⟨"content", "width=device-width, initial-scale=1.0"⟩],
       .text indent, .tag "title" [],
       .text ((OrderedMap.get? fields "title").getD "MTM App"), .tag "/title" []] ++
      ((prescribed fields).flatMap fun tag ↦ [.text indent, tag]) ++ [.text ['\n']] := by
  obtain ⟨rest, hrest⟩ := read_render fields body scriptTag
  have hfront : ∀ parts, (doctypeParts ++ openingRows.flatMap Row.parts ++ parts).dropWhile
      (· != .tag "head" []) = .tag "head" [] :: parts := fun _ ↦ rfl
  have hbehind : (closingRow.parts ++ rest).takeWhile (· != .tag "/head" []) =
      [.text ['\n']] := rfl
  -- The head goes on to its end: none of its own tags closes it.
  have hinside : ∀ part ∈ (headRows fields).flatMap Row.parts,
      (part != .tag "/head" []) = true := by
    intro part hpart
    obtain ⟨row, hrow, hpart⟩ := List.mem_flatMap.mp hpart
    have hname := (of_mem_headRows hrow).2
    rw [bne_iff_ne]
    rcases List.mem_pair.mp hpart with rfl | rfl
    · exact Part.noConfusion
    · exact fun htag ↦ hname (Part.tag.inj htag).1
  rw [hrest, head, hfront, List.drop_one, List.tail_cons, List.takeWhile_append_of_pos hinside,
    hbehind, prescribed_eq, headRows, List.flatMap_append, List.flatMap_cons, List.flatMap_map,
    List.flatMap_map]
  rfl

end Document

end PageCompiler
