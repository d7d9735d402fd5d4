import PageCompiler.FrontMatter
import PageCompiler.Proofs.OrderedMaps
import PageCompiler.Proofs.Texts

/-!
# Reading written front matter

A field may be written with quotes of either kind around its value, or without any. Quotes carry
every value that fits on a line (`FrontMatter.extract_quoted`). Without quotes a value has to be one
that trimming and unquoting leave alone. Whichever way the fields are written, the block gives them
back in order.
-/

namespace PageCompiler

namespace FrontMatter

/-! ## Written fields -/

/-- How the value of a field is written. -/
inductive Quoting where
  | single
  | double
  /-- As it is. -/
  | bare
  deriving DecidableEq, Repr

/-- A field as an author writes it. -/
structure WrittenField where
  key : Text
  value : Text
  quoting : Quoting := .double
  deriving DecidableEq, Repr

namespace WrittenField

def shown (f : WrittenField) : Text :=
  match f.quoting with
  | .single => "'" ++ f.value ++ "'"
  | .double => "\"" ++ f.value ++ "\""
  | .bare => f.value

def line (f : WrittenField) : Text := f.key ++ ": " ++ f.shown

/-- The field itself. -/
def pair (f : WrittenField) : Text × Text := (f.key, f.value)

/-- Whether a value has quotes of its own around it. -/
def InQuotes (value : Text) : Prop :=
  2 ≤ value.length ∧ (value.head? = some '\'' ∨ value.head? = some '"') ∧
    value.getLast? = value.head?

/-- Whether a value can do without quotes: it is trimmed, not empty, and not in quotes itself. -/
def StandsBare (value : Text) : Prop :=
  Text.trim value = value ∧ value ≠ [] ∧ ¬InQuotes value

/-- The key is a name, the value fits on the line, and it has quotes if it needs them. -/
def WellFormed (f : WrittenField) : Prop :=
  Text.IsName f.key ∧ '\n' ∉ f.value ∧ (f.quoting = .bare → StandsBare f.value)

instance (value : Text) : Decidable (InQuotes value) := inferInstanceAs (Decidable (_ ∧ _))

instance (value : Text) : Decidable (StandsBare value) := inferInstanceAs (Decidable (_ ∧ _))

instance (f : WrittenField) : Decidable f.WellFormed := inferInstanceAs (Decidable (_ ∧ _))

end WrittenField

def blockLines (fields : List WrittenField) : List Text :=
  delimiter :: (fields.map WrittenField.line ++ [delimiter])

/-! ## Values -/

theorem unquote_quoted {q : Char} (hq : q = '\'' ∨ q = '"') (value : Text) :
    unquote (q :: (value ++ [q])) = value := by
  cases value with
  | nil => simp [unquote, hq]
  | cons c cs =>
    rw [List.cons_append, unquote, ← List.cons_append, List.getLast?_concat, List.dropLast_concat,
      if_pos ⟨hq, rfl⟩]

theorem unquote_of_not_inQuotes {value : Text} (h : ¬WrittenField.InQuotes value) :
    unquote value = value := by
  unfold unquote
  split
  · next first second rest =>
    refine if_neg fun ⟨hquote, hlast⟩ ↦ h ⟨by simp, by simpa using hquote, ?_⟩
    rw [List.getLast?_cons_cons, hlast, List.head?_cons]
  · rfl

namespace WrittenField

variable {f : WrittenField}

/-- The written value is not empty, and what trimming and unquoting leave of it is the value. -/
theorem unquote_trim_shown (h : f.WellFormed) :
    f.shown ≠ [] ∧ Text.trim f.shown = f.shown ∧ unquote f.shown = f.value := by
  obtain ⟨-, -, hbare⟩ := h
  unfold shown
  cases hquoting : f.quoting with
  | single =>
    exact ⟨by simp, Text.trim_of_ends (by decide) (by decide) f.value,
      unquote_quoted (Or.inl rfl) f.value⟩
  | double =>
    exact ⟨by simp, Text.trim_of_ends (by decide) (by decide) f.value,
      unquote_quoted (Or.inr rfl) f.value⟩
  | bare =>
    obtain ⟨htrim, hne, hquotes⟩ := hbare hquoting
    exact ⟨hne, htrim, unquote_of_not_inQuotes hquotes⟩

/-! ## Lines -/

theorem trim_line (h : f.WellFormed) : Text.trim f.line = f.line := by
  obtain ⟨hne, htrim, -⟩ := unquote_trim_shown h
  have hleft : Text.trimLeft f.line = f.line := by
    rw [line, List.append_assoc]
    exact h.1.trimLeft_append _
  rw [Text.trim, hleft, line, Text.trimRight_append_of_trim_eq htrim hne]

/-- The line of a field is neither a delimiter nor a remark, since it begins with its key. -/
theorem line_begins (h : f.WellFormed) : ∃ c rest, f.line = c :: rest ∧ isWord c = true := by
  obtain ⟨c, cs, hkey, hc⟩ := h.1.exists_cons
  exact ⟨c, cs ++ (": " ++ f.shown), by rw [line, hkey]; simp, hc⟩

theorem isDelimiter_line (h : f.WellFormed) : isDelimiter f.line = false := by
  obtain ⟨c, rest, hline, hc⟩ := line_begins h
  rw [isDelimiter, trim_line h, hline, beq_eq_false_iff_ne]
  intro heq
  obtain ⟨rfl, -⟩ := List.cons.inj (heq : c :: rest = ['-', '-', '-'])
  exact absurd hc (by decide)

theorem notMem_lineFeed_line (h : f.WellFormed) : '\n' ∉ f.line := by
  obtain ⟨hkey, hvalue, -⟩ := h
  have hshown : '\n' ∉ f.shown := by
    unfold shown
    cases f.quoting <;> simp [hvalue]
  simp [line, hkey.notMem_lineFeed, hshown]

theorem pair?_line (h : f.WellFormed) : pair? f.line = some f.pair := by
  obtain ⟨-, htrim, hvalue⟩ := unquote_trim_shown h
  have hword : Text.word? f.line = some (f.key, ": " ++ f.shown) := by
    rw [line, List.append_assoc]
    refine h.1.word?_append fun c hc ↦ ?_
    obtain rfl : ':' = c := Option.some.inj hc
    decide
  have hafter : Text.after? [':'] (": " ++ f.shown) = some (' ' :: f.shown) := rfl
  have hspace : Text.trim (' ' :: f.shown) = f.shown := by
    rw [Text.trim_cons_of_isBlank (by decide), htrim]
  simp only [pair?, hword, hafter, hspace, hvalue, Option.bind_eq_bind, Option.bind_some]
  rfl

theorem readLine_line (h : f.WellFormed) : readLine f.line = .pair f.key f.value := by
  obtain ⟨c, rest, hline, hc⟩ := line_begins h
  have hremark : Text.startsWith f.line "#" = false := by
    rw [Bool.eq_false_iff, ne_eq, Text.startsWith_iff, hline]
    intro hstart
    obtain ⟨rfl, -⟩ := List.cons_prefix_cons.mp (hstart : ['#'] <+: c :: rest)
    exact absurd hc (by decide)
  have hempty : f.line.isEmpty = false := by rw [hline, List.isEmpty_cons]
  rw [readLine, trim_line h, hempty, hremark, pair?_line h]
  rfl

end WrittenField

/-! ## Blocks -/

theorem foldl_lines (fields : List WrittenField) (found : FrontMatter)
    (hwell : ∀ f ∈ fields, f.WellFormed)
    (hnodup : (OrderedMap.keys found ++ fields.map WrittenField.key).Nodup) :
    (fields.map WrittenField.line).foldl
      (fun found raw ↦
        match readLine raw with
        | .pair key value => OrderedMap.put key value found
        | _ => found)
      found = found ++ fields.map WrittenField.pair := by
  induction fields generalizing found with
  | nil => simp
  | cons f rest ih =>
    have hnew : f.key ∉ OrderedMap.keys found := by
      intro hmem
      exact (List.nodup_append.mp hnodup).2.2 f.key hmem f.key (by simp) rfl
    rw [List.map_cons, List.foldl_cons,
      WrittenField.readLine_line (hwell f List.mem_cons_self)]
    simp only [OrderedMap.put_of_notMem hnew]
    rw [ih _ (fun g hg ↦ hwell g (List.mem_cons_of_mem _ hg))]
    · simp [WrittenField.pair]
    · simpa [OrderedMap.keys] using hnodup

theorem ofLines_lines {fields : List WrittenField} (hwell : ∀ f ∈ fields, f.WellFormed)
    (hnodup : (fields.map WrittenField.key).Nodup) :
    ofLines (fields.map WrittenField.line) = fields.map WrittenField.pair :=
  foldl_lines fields [] hwell hnodup

theorem notMem_lineFeed_of_mem_blockLines {fields : List WrittenField}
    (hwell : ∀ f ∈ fields, f.WellFormed) : ∀ l ∈ blockLines fields, '\n' ∉ l := by
  have hdelimiter : '\n' ∉ delimiter := by decide
  intro l hl
  rcases List.mem_cons.mp hl with rfl | hl
  · exact hdelimiter
  · rcases List.mem_append.mp hl with hfield | hclosing
    · obtain ⟨f, hf, rfl⟩ := List.mem_map.mp hfield
      exact WrittenField.notMem_lineFeed_line (hwell f hf)
    · rw [List.mem_singleton.mp hclosing]
      exact hdelimiter

/-- A source whose first lines are a written block has the fields of that block, and everything
after it as body. -/
theorem extract_of_lines {source : Text} {fields : List WrittenField} {rest : List Text}
    (hlines : Text.lines source = blockLines fields ++ rest)
    (hwell : ∀ f ∈ fields, f.WellFormed) (hnodup : (fields.map WrittenField.key).Nodup) :
    (extract source).fields = fields.map WrittenField.pair ∧
      (extract source).body = Text.unlines rest ∧
      (extract source).bodyOffset = fields.length + 2 := by
  have hpass : ∀ l ∈ fields.map WrittenField.line, (!isDelimiter l) = true := by
    intro l hl
    obtain ⟨f, hf, rfl⟩ := List.mem_map.mp hl
    rw [WrittenField.isDelimiter_line (hwell f hf), Bool.not_false]
  have hdelimiter : isDelimiter delimiter = true := by decide
  have htake : (fields.map WrittenField.line ++ delimiter :: rest).takeWhile
      (fun l ↦ !isDelimiter l) = fields.map WrittenField.line := by
    rw [List.takeWhile_append_of_pos hpass, List.takeWhile_cons_of_neg (by simp [hdelimiter]),
      List.append_nil]
  have hdrop : (fields.map WrittenField.line ++ delimiter :: rest).dropWhile
      (fun l ↦ !isDelimiter l) = delimiter :: rest := by
    rw [List.dropWhile_append_of_pos hpass, List.dropWhile_cons_of_neg (by simp [hdelimiter])]
  have hsource : Text.lines source =
      delimiter :: (fields.map WrittenField.line ++ delimiter :: rest) := by
    rw [hlines, blockLines, List.cons_append, List.append_assoc, List.singleton_append]
  have hextract : extract source = ⟨ofLines (fields.map WrittenField.line), Text.unlines rest,
      (fields.map WrittenField.line).length + 2, notesOn (fields.map WrittenField.line)⟩ := by
    simp only [extract, hsource, hdelimiter, htake, hdrop]
    rfl
  rw [hextract]
  exact ⟨ofLines_lines hwell hnodup, rfl, by rw [List.length_map]⟩

theorem extract_of_no_block {source first : Text} {rest : List Text}
    (hlines : Text.lines source = first :: rest) (hfirst : isDelimiter first = false) :
    (extract source).fields = [] ∧ (extract source).body = source ∧
      (extract source).bodyOffset = 0 := by
  have hextract : extract source = ⟨[], source, 0, []⟩ := by
    simp only [extract, hlines, hfirst]
    rfl
  rw [hextract]
  exact ⟨rfl, rfl, rfl⟩

/-! ## Quoted fields -/

/-- A field in quotes needs nothing but a name and a value that fits on its line. -/
theorem WrittenField.wellFormed_of_quoted {f : WrittenField} (hname : Text.IsName f.key)
    (hvalue : '\n' ∉ f.value) (hquoted : f.quoting = .single ∨ f.quoting = .double) :
    f.WellFormed := by
  refine ⟨hname, hvalue, fun hbare ↦ ?_⟩
  rcases hquoted with hsingle | hdouble
  · rw [hbare] at hsingle
    cases hsingle
  · rw [hbare] at hdouble
    cases hdouble

/-- **A block of quoted fields is read back.** Whatever the values are, if each fits on its line,
and whichever quotes each is written in: the block gives the fields in order, everything behind its
closing line is the body, and as many lines come before that as there are fields and delimiters. -/
theorem extract_quoted {fields : List WrittenField}
    (hkeys : (fields.map WrittenField.key).Nodup) (hnames : ∀ f ∈ fields, Text.IsName f.key)
    (hvalues : ∀ f ∈ fields, '\n' ∉ f.value)
    (hquoted : ∀ f ∈ fields, f.quoting = .single ∨ f.quoting = .double) (body : Text) :
    let parts := extract (Text.unlines (blockLines fields) ++ '\n' :: body)
    parts.fields = fields.map WrittenField.pair ∧ parts.body = body ∧
      parts.bodyOffset = fields.length + 2 := by
  have hwell : ∀ f ∈ fields, f.WellFormed := fun f hf ↦
    WrittenField.wellFormed_of_quoted (hnames f hf) (hvalues f hf) (hquoted f hf)
  have hne : blockLines fields ≠ [] := List.cons_ne_nil _ _
  have hlines : Text.lines (Text.unlines (blockLines fields) ++ '\n' :: body) =
      blockLines fields ++ Text.lines body := by
    rw [Text.lines_append_lineFeed,
      Text.lines_unlines hne (notMem_lineFeed_of_mem_blockLines hwell)]
  obtain ⟨hfields, hbody, hoffset⟩ := extract_of_lines hlines hwell hkeys
  exact ⟨hfields, hbody.trans (Text.unlines_lines body), hoffset⟩

/-- Values with quotes, marks and blanks of their own, before a body that begins like a block. -/
theorem extract_quoted_marks :
    let fields : List WrittenField :=
      [⟨"title", " \"it's\": ", .single⟩, ⟨"tag", "'", .single⟩, ⟨"note", "", .double⟩,
        ⟨"rule", "# ---", .double⟩]
    let body : Text := "---\ntitle: x\n---"
    ((fields.map WrittenField.key).Nodup ∧ (∀ f ∈ fields, Text.IsName f.key) ∧
      (∀ f ∈ fields, '\n' ∉ f.value) ∧
      ∀ f ∈ fields, f.quoting = .single ∨ f.quoting = .double) ∧
    (let parts := extract (Text.unlines (blockLines fields) ++ '\n' :: body)
    parts.fields =
        ([("title", " \"it's\": "), ("tag", "'"), ("note", ""), ("rule", "# ---")] : FrontMatter) ∧
      parts.body = body ∧ parts.bodyOffset = 6) := by
  intro fields body
  have hwritten : (fields.map WrittenField.key).Nodup ∧ (∀ f ∈ fields, Text.IsName f.key) ∧
      (∀ f ∈ fields, '\n' ∉ f.value) ∧
      ∀ f ∈ fields, f.quoting = .single ∨ f.quoting = .double := by decide +kernel
  obtain ⟨hkeys, hnames, hvalues, hquoted⟩ := hwritten
  exact ⟨⟨hkeys, hnames, hvalues, hquoted⟩, extract_quoted hkeys hnames hvalues hquoted body⟩

end FrontMatter

end PageCompiler
