import PageCompiler.Proofs.ProgramLines
import PageCompiler.Proofs.ScriptClosing

/-!
# Conditions in the markup and in the program

A block becomes a hidden element that names its condition, and the program finds the tree of the
condition by this name. The name goes two ways: into an attribute of the markup, with references,
and into a table of the program, as a string. The pass over bindings comes in between, and it may
not touch the attribute.

Both ways lead back to the same text. `Markup.readHidden` reads the condition off an element as a
browser does, and `Script.readTable` reads the table as the program does.
-/

namespace PageCompiler

/-! ## The markup -/

namespace Markup

def ConditionalBlock.opening (b : ConditionalBlock) : Text :=
  "<div data-if=\"" ++ Text.escape b.condition ++ "\" style=\"display: none;\">"

/-- Reads the opening tag of a hidden element, and gives the condition it is shown under. -/
def readHidden : Reader Text := fun t ↦ do
  let (value, rest) ← Text.upTo? '"' (← Text.after? ("<div data-if=\"" : Text) t)
  let rest ← Text.after? (" style=\"display: none;\">" : Text) rest
  some (Text.unescape value, rest)

/-- Markup cut at its blocks, with hidden elements in their place; what stands around and within
them is lowered. -/
def withHidden (lowerText : Text → Text) (parts : List (Text × ConditionalBlock)) (last : Text) :
    Text :=
  parts.flatMap (fun part ↦
    lowerText part.1 ++ (part.2.opening ++ (lowerText part.2.body ++ ("</div>" : Text)))) ++
    lowerText last

theorem render_eq (b : ConditionalBlock) : b.render = b.opening ++ (b.body ++ ("</div>" : Text)) :=
  List.append_assoc _ _ _

theorem readHidden_opening (b : ConditionalBlock) (rest : Text) :
    readHidden (b.opening ++ rest) = some (b.condition, rest) := by
  have hclose : ("\" style=\"display: none;\">" : Text) =
      '"' :: (" style=\"display: none;\">" : Text) := by decide
  have hread : ∀ close : Text, close = '"' :: (" style=\"display: none;\">" : Text) →
      readHidden ("<div data-if=\"" ++ Text.escape b.condition ++ close ++ rest) =
        some (b.condition, rest) := by
    rintro _ rfl
    simp only [readHidden, List.append_assoc, List.cons_append, Text.after?_append,
      Option.bind_eq_bind, Option.bind_some, Text.unescape_escape,
      Text.upTo?_append_cons (Text.quote_notMem_escape b.condition)]
  exact hread _ hclose

theorem exists_opening_eq {b : ConditionalBlock} (h : '\x7d' ∉ b.condition) :
    ∃ tag, b.opening = '<' :: (tag ++ ['>']) ∧ '\x7d' ∉ tag := by
  have hstart : ("<div data-if=\"" : Text) = ['<'] ++ ("div data-if=\"" : Text) := by decide
  have hclose : ("\" style=\"display: none;\">" : Text) =
      ("\" style=\"display: none;\"" : Text) ++ ['>'] := by decide
  refine ⟨_, Text.append_around hstart hclose (Text.escape b.condition), ?_⟩
  rw [List.mem_append, List.mem_append, not_or, not_or]
  refine ⟨by decide, fun hmem ↦ ?_, by decide⟩
  rcases Text.mem_of_mem_escape hmem with ⟨hcondition, -⟩ | hsign
  · exact h hcondition
  · exact absurd hsign (by decide)

theorem lowerBindings_hidden {b : ConditionalBlock} (h : '\x7d' ∉ b.condition)
    (front rest : Text) :
    lowerBindings (front ++ (b.opening ++ (b.body ++ (("</div>" : Text) ++ rest)))) =
      lowerBindings front ++
        (b.opening ++ (lowerBindings b.body ++ (("</div>" : Text) ++ lowerBindings rest))) := by
  obtain ⟨tag, htag, hclosed⟩ := exists_opening_eq h
  have hend : ("</div>" : Text) = '<' :: ("/div" ++ ['>']) := by decide
  rw [htag, hend]
  simp only [List.cons_append, List.append_assoc, List.nil_append]
  rw [lowerBindings_tag hclosed, lowerBindings_tag (by decide)]

variable {t last : Text} {parts : List (Text × ConditionalBlock)}

theorem withHidden_cons (lowerText : Text → Text) (part : Text × ConditionalBlock) :
    withHidden lowerText (part :: parts) last = lowerText part.1 ++ (part.2.opening ++
      (lowerText part.2.body ++ (("</div>" : Text) ++ withHidden lowerText parts last))) := by
  simp only [withHidden, List.flatMap_cons, List.append_assoc]

theorem lowerBlocks_eq_withHidden (h : Text.Divides WritesBlock [] t parts last) :
    lowerBlocks t = withHidden id parts last := by
  rw [lowerBlocks, h.substitute reads_block]
  simp only [withHidden, render_eq, id]

theorem lowerBindings_withHidden (h : ∀ part ∈ parts, '\x7d' ∉ part.2.condition) :
    lowerBindings (withHidden id parts last) = withHidden lowerBindings parts last := by
  induction parts with
  | nil => rfl
  | cons part parts ih =>
    obtain ⟨hpart, hparts⟩ := List.forall_mem_cons.mp h
    rw [withHidden_cons, withHidden_cons, id, id, lowerBindings_hidden hpart, ih hparts]

end Markup

/-! ## The table of the program -/

namespace Script

def readRow (l : Text) : Option (Text × Text) := do
  let (condition, rest) ← Json.readText (← Text.after? ("    " : Text) l)
  let value ← Text.before? [','] (← Text.after? (": " : Text) rest)
  some (condition, value)

def readRows : List Text → Option (List (Text × Text) × List Text)
  | [] => none
  | l :: rest =>
    if l = ("  \x7d;" : Text) then some ([], rest)
    else do
      let row ← readRow l
      let (rows, rest) ← readRows rest
      some (row :: rows, rest)

/-- Reads the table of conditions. -/
def readTable : List Text → Option (List (Text × Text) × List Text)
  | [] => none
  | l :: rest =>
    if l = ("  const conditions = \x7b\x7d;" : Text) then some ([], rest)
    else if l = ("  const conditions = \x7b" : Text) then readRows rest
    else none

def conditionRow (row : Text × Option Condition.Tree) : Text :=
  line 2 (Json.writeText false row.1 ++ ": " ++ Condition.scriptOf row.2 ++ ",")

theorem readRow_conditionRow (row : Text × Option Condition.Tree) :
    readRow (conditionRow row) = some (row.1, Condition.scriptOf row.2) := by
  have hline : ∀ c : Char, ∀ cs : Text, line 2 (c :: cs) = ("    " : Text) ++ c :: cs :=
    fun _ _ ↦ rfl
  have hrow : conditionRow row = ("    " : Text) ++ (Json.writeText false row.1 ++
      ((": " : Text) ++ (Condition.scriptOf row.2 ++ [',']))) := by
    rw [conditionRow, List.append_assoc, List.append_assoc, Json.writeText, List.cons_append,
      List.cons_append, hline]
    rfl
  have hvalue : Text.before? [','] (Condition.scriptOf row.2 ++ [',']) =
      some (Condition.scriptOf row.2) := Text.before?_eq_some_iff.mpr rfl
  simp only [readRow, hrow, Text.after?_append, Json.readText_writeText, hvalue,
    Option.bind_eq_bind, Option.bind_some]

theorem readRows_cons {l : Text} {row : Text × Text} (h : readRow l = some row)
    (rest : List Text) :
    readRows (l :: rest) = (readRows rest).map fun found ↦ (row :: found.1, found.2) := by
  have hend : l ≠ ("  \x7d;" : Text) := by
    rintro rfl
    have hnone : readRow ("  \x7d;" : Text) = none := by decide
    rw [hnone] at h
    cases h
  rw [readRows, if_neg hend, h]
  cases readRows rest with
  | none => rfl
  | some found => rfl

theorem readRows_conditionRows (conditions : OrderedMap (Option Condition.Tree))
    (rest : List Text) :
    readRows (conditions.map conditionRow ++ ("  \x7d;" : Text) :: rest) =
      some (conditions.map fun row ↦ (row.1, Condition.scriptOf row.2), rest) := by
  induction conditions with
  | nil => rw [List.map_nil, List.nil_append, readRows, if_pos rfl, List.map_nil]
  | cons row conditions ih =>
    rw [List.map_cons, List.cons_append, readRows_cons (readRow_conditionRow row), ih,
      Option.map_some, List.map_cons]

theorem readTable_conditionLines (conditions : OrderedMap (Option Condition.Tree))
    (rest : List Text) :
    readTable (conditionLines conditions ++ rest) =
      some (conditions.map fun row ↦ (row.1, Condition.scriptOf row.2), rest) := by
  cases conditions with
  | nil => rfl
  | cons row conditions =>
    have hlines : conditionLines (row :: conditions) ++ rest =
        ("  const conditions = \x7b" : Text) ::
          ((row :: conditions).map conditionRow ++ ("  \x7d;" : Text) :: rest) := by
      rw [List.append_cons]
      rfl
    have hempty : ("  const conditions = \x7b" : Text) ≠ "  const conditions = \x7b\x7d;" := by
      decide
    rw [hlines, readTable, if_neg hempty, if_pos rfl, readRows_conditionRows]

end Script

/-! ## Agreement -/

/-- Whether a program knows just the given conditions of a component: each is in its table once, in
the order of first appearance, with the tree that it is read to, or with none when it is
rejected. -/
structure Generated.Knows (generated : Generated) (c : Component) (conditions : List Text) :
    Prop where
  keys : OrderedMap.keys generated.template.conditions = distinct conditions
  tree_iff : ∀ condition entry, (condition, entry) ∈ generated.template.conditions →
    ∀ tree, entry = some tree ↔ Condition.parse condition c.variableNames = .ok tree
  none_iff : ∀ condition entry, (condition, entry) ∈ generated.template.conditions →
    (entry = none ↔ ∃ e d, Condition.parse condition c.variableNames = .error e ∧
      e.diagnostic condition c.variableNames (some c.file) .warning = .ok d)
  table : ∃ front table back,
    generated.script = Text.unlines (front ++ (table ++
      [] :: ("  const updateAll = () => \x7b" : Text) :: back)) ∧
    ∀ rest, Script.readTable (table ++ rest) =
      some (generated.template.conditions.map fun row ↦ (row.1, Condition.scriptOf row.2), rest)

namespace Component

open Script

variable {c : Component} {mode : ScriptMode} {definitions : List Definition} {withLibrary : Bool}
  {generated : Generated}

theorem knows_of_generate (h : (c.generate mode definitions withLibrary).result = .ok generated) :
    generated.Knows c (c.blocks.map Markup.ConditionalBlock.condition) := by
  obtain ⟨hscript, -, htable⟩ := generate_eq_ok h
  refine ⟨(Lowering.tableFrom_eq_ok htable).1, ?_, ?_, ?_⟩
  · intro condition entry hrow tree
    rcases Lowering.mem_table_cases htable hrow with ⟨tree', rfl, hparse⟩ | ⟨rfl, e, d, hparse, -⟩
    · simp [hparse]
    · simp [hparse]
  · intro condition entry hrow
    rcases Lowering.mem_table_cases htable hrow with ⟨tree', rfl, hparse⟩ | ⟨rfl, e, d, hparse, hd⟩
    · simp [hparse]
    · exact iff_of_true rfl ⟨e, d, hparse, hd⟩
  · obtain ⟨before, behind, hprogram⟩ :=
      exists_program_eq_unlines c definitions withLibrary generated.template
    obtain ⟨front, back, hpage⟩ := exists_pageLines_eq c definitions generated.template
    refine ⟨before ++ front, conditionLines generated.template.conditions,
      updateBody c ++ ("  \x7d;" : Text) :: back ++ behind, ?_, readTable_conditionLines _⟩
    rw [hscript, hprogram, hpage]
    simp only [List.append_assoc, List.cons_append]

/-- **The conditions in the markup are those of the program.** A template is cut in one way at its
blocks. Lowering puts a hidden element in the place of each and keeps what stands around and within
it; the pass over bindings leaves the tags of the elements as they are, and each gives the condition
of its block. There is a program unless a numeral is refused, and it knows just these conditions. -/
theorem conditions_agree (c : Component) (mode : ScriptMode) (definitions : List Definition)
    (withLibrary : Bool) :
    ∃ parts last,
      (∀ parts' last', Text.Divides Markup.WritesBlock [] (Markup.beforeBlocks c) parts' last' ↔
        parts' = parts ∧ last' = last) ∧
      Markup.beforeBindings c = Markup.withHidden id parts last ∧
      Markup.lower c = Markup.withHidden Markup.lowerBindings parts last ∧
      (∀ part ∈ parts, ∀ rest,
        Markup.readHidden (part.2.opening ++ rest) = some (part.2.condition, rest)) ∧
      ((∃ part ∈ parts, Condition.Refused part.2.condition) ∨
        ∃ generated, (c.generate mode definitions withLibrary).result = .ok generated ∧
          generated.template.html = Markup.lower c ∧
          generated.Knows c (parts.map fun part ↦ part.2.condition)) := by
  obtain ⟨parts, last, hiff⟩ := Text.existsUnique_divides Markup.reads_block.ne_nil
    fun parts last (h : Text.Divides _ [] (Markup.beforeBlocks c) parts last) ↦
      h.pieces_eq Markup.reads_block
  have hdivides := (hiff parts last).mpr ⟨rfl, rfl⟩
  have hbraces : ∀ part ∈ parts, '\x7d' ∉ part.2.condition := by
    intro part hpart
    obtain ⟨before, source, hsource⟩ := hdivides.exists_form hpart
    exact Markup.notMem_condition hsource
  have hblocks : Markup.beforeBindings c = Markup.withHidden id parts last :=
    Markup.lowerBlocks_eq_withHidden hdivides
  have hconditions : c.blocks.map Markup.ConditionalBlock.condition =
      parts.map fun part ↦ part.2.condition := by
    rw [blocks, Markup.blocks, hdivides.findAll Markup.reads_block, List.map_map]
    rfl
  refine ⟨parts, last, hiff, hblocks, ?_, fun part _ ↦ Markup.readHidden_opening part.2, ?_⟩
  · rw [Markup.lower, hblocks, Markup.lowerBindings_withHidden hbraces]
  · cases htable : (Lowering.tableFrom c [] c.blocks).conditions with
    | error refusal =>
      left
      obtain ⟨b, hb, hscan⟩ := Lowering.tableFrom_eq_error htable
      rw [blocks, Markup.blocks, hdivides.findAll Markup.reads_block] at hb
      obtain ⟨part, hpart, rfl⟩ := List.mem_map.mp hb
      exact ⟨part, hpart, refusal, hscan⟩
    | ok table =>
      right
      obtain ⟨⟨generated, hgenerated, -⟩, -⟩ :=
        (c.generate_eq mode definitions withLibrary).2 table htable
      obtain ⟨conditions, -, -, htemplate⟩ := exists_of_generate hgenerated
      refine ⟨generated, hgenerated, ?_, ?_⟩
      · rw [htemplate]
      · rw [← hconditions]
        exact knows_of_generate hgenerated

end Component

end PageCompiler
