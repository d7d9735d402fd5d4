import PageCompiler.OrderedMap
import PageCompiler.Script.Library
import PageCompiler.Proofs.JsonReading

/-!
# Conditions as nodes

A condition stands in a script as a JSON text, and the interpreter in the library of the running
page takes it from there as an object, its kind first and then the fields of that kind. Which fields
these are is not repeated here but looked up in the text of the library: `Script.nodeFields` goes
through the cases of the method that evaluates a node. `Denotes` says which tree a node stands for
when it is read in that way.

Writing a tree and reading it as a node comes back to the tree. The text is read to the object that
was written, whose numbers are all of the format since they were read from decimals
(`isReadable_of_parse`), and the object has the fields that the interpreter reads
(`denotes_toJson`).
-/

namespace PageCompiler

/-! ## What the interpreter reads -/

namespace Script

/-- The lines inside a method of the library, by the line that begins it. -/
def methodLines (lines : List Text) (head : Text) : List Text :=
  ((lines.dropWhile (· != head)).drop 1).takeWhile fun line ↦ Text.startsWith line "    "

def caseValue? (line : Text) : Option Text :=
  (Text.after? "case '" (Text.trimLeft line)).bind fun t ↦ (Text.upTo? '\'' t).map Prod.fst

def beginsCase (line : Text) : Bool :=
  (caseValue? line).isSome || Text.startsWith (Text.trimLeft line) "default:"

/-- The fields of a node that a line mentions. -/
def fieldsRead (line : Text) : List Text :=
  Text.findAll (fun t ↦ (Text.after? "node." t).bind Text.word?) line

/-- The cases of a switch, each with the fields of the node that it reads. -/
def switchCases : List Text → List (Text × List Text)
  | [] => []
  | line :: rest =>
    match caseValue? line with
    | none => switchCases rest
    | some value =>
      let lines := line :: rest.takeWhile fun next ↦ !beginsCase next
      (value, distinct (lines.flatMap fieldsRead)) :: switchCases rest

/-- The kinds of nodes that the interpreter knows, with the fields that it reads of each. -/
def nodeFields : List (Text × List Text) :=
  switchCases (methodLines libraryLines "  evaluate(node, scope) \x7b")

/-- The operators that the interpreter knows. -/
def operators : List Text :=
  (switchCases (methodLines libraryLines "  compare(op, a, b) \x7b")).map Prod.fst

/-- Whether rows of characters are the given lines. It keeps the two sides apart where their
equality would be decided by comparing all lines. -/
def Spells (lines : List Text) (rows : List (List Char)) : Prop := lines = rows

theorem spells_nil : Spells (List.map String.toList []) [] := rfl

theorem spells_cons {line : String} {lines : List String} {row : List Char}
    {rows : List (List Char)} (hline : line = String.ofList row)
    (h : Spells (List.map String.toList lines) rows) :
    Spells (List.map String.toList (line :: lines)) (row :: rows) := by
  rw [Spells, List.map_cons, hline, String.toList_ofList, h]

theorem Spells.elim {motive : List Text → Prop} {lines : List Text} {rows : List (List Char)}
    (h : Spells lines rows) (hrows : motive rows) : motive lines := h ▸ hrows

theorem nodeFields_operators_eq :
    nodeFields =
      [(("literal" : Text), [("value" : Text)]), ("var", [("name" : Text)]),
       ("not", [("operand" : Text)]), ("and", [("left" : Text), ("right" : Text)]),
       ("or", [("left" : Text), ("right" : Text)]),
       ("compare", [("op" : Text), ("left" : Text), ("right" : Text)])] ∧
    operators =
      [("===" : Text), ("!==" : Text), ("==" : Text), ("!=" : Text), ("<" : Text), ("<=" : Text),
       (">" : Text), (">=" : Text)] := by
  unfold nodeFields operators
  apply Spells.elim (motive := fun lines ↦
    switchCases (methodLines lines "  evaluate(node, scope) \x7b") = _ ∧
      (switchCases (methodLines lines "  compare(op, a, b) \x7b")).map Prod.fst = _)
  · unfold libraryLines
    dsimp only
    repeat apply spells_cons rfl
    exact spells_nil
  · decide +kernel

end Script

/-! ## Nodes -/

/-- The value of a field of an object. Of several fields of one name the last one counts. -/
def Json.field? : Json → Text → Option Json
  | .object members, name => OrderedMap.get? (OrderedMap.ofPairs members) name
  | _, _ => none

namespace Condition

/-- Whether a value is a node of a kind, with the given values in the fields that the interpreter
reads of that kind. -/
structure Reads (node : Json) (kind : Text) (values : List Json) : Prop where
  type : node.field? "type" = some (.text kind)
  fields : ∃ names, Script.nodeFields.lookup kind = some names ∧
    names.map node.field? = values.map some

/-- Whether a value is a node that stands for a tree, read as the interpreter reads it. -/
inductive Denotes : Json → Tree → Prop
  | literal {node : Json} {value : Literal} (h : Reads node "literal" [value.toJson]) :
    Denotes node (.literal value)
  | var {node : Json} {name : Text} (h : Reads node "var" [.text name]) : Denotes node (.var name)
  | not {node operand : Json} {t : Tree} (h : Reads node "not" [operand])
    (inside : Denotes operand t) : Denotes node (.not t)
  | and {node left right : Json} {l r : Tree} (h : Reads node "and" [left, right])
    (hleft : Denotes left l) (hright : Denotes right r) : Denotes node (.and l r)
  | or {node left right : Json} {l r : Tree} (h : Reads node "or" [left, right])
    (hleft : Denotes left l) (hright : Denotes right r) : Denotes node (.or l r)
  | compare {node left right : Json} {op : Comparison} {l r : Tree}
    (h : Reads node "compare" [.text op.symbol, left, right]) (hop : op.symbol ∈ Script.operators)
    (hleft : Denotes left l) (hright : Denotes right r) : Denotes node (.compare op l r)

theorem Reads.unique {node : Json} {kind kind' : Text} {values values' : List Json}
    (h : Reads node kind values) (h' : Reads node kind' values') :
    kind = kind' ∧ values = values' := by
  have hkind : kind = kind' := Json.text.inj (Option.some.inj (h.type.symm.trans h'.type))
  obtain ⟨names, hnames, hvalues⟩ := h.fields
  obtain ⟨names', hnames', hvalues'⟩ := h'.fields
  obtain rfl : names = names' := by
    rw [← hkind] at hnames'
    exact Option.some.inj (hnames.symm.trans hnames')
  refine ⟨hkind, List.map_injective_iff.mpr (Option.some_injective _) ?_⟩
  exact hvalues.symm.trans hvalues'

theorem Literal.toJson_injective {a b : Literal} (h : a.toJson = b.toJson) : a = b := by
  cases a <;> cases b <;> simp_all [Literal.toJson]

theorem Comparison.symbol_injective {a b : Comparison} (h : a.symbol = b.symbol) : a = b := by
  revert h
  cases a <;> cases b <;> decide

/-- A node stands for one tree at most: its kind tells the form of the tree, and the fields of that
kind tell the parts. -/
theorem Denotes.unique {node : Json} {t t' : Tree} (h : Denotes node t) (h' : Denotes node t') :
    t = t' := by
  induction h generalizing t' with
  | literal h =>
    cases h' with
    | literal h' =>
      obtain ⟨hvalue, -⟩ := List.cons.inj (h.unique h').2
      rw [Literal.toJson_injective hvalue]
    | var h' | not h' | and h' | or h' | compare h' => exact absurd (h.unique h').1 (by decide)
  | var h =>
    cases h' with
    | var h' =>
      obtain ⟨hname, -⟩ := List.cons.inj (h.unique h').2
      rw [Json.text.inj hname]
    | literal h' | not h' | and h' | or h' | compare h' => exact absurd (h.unique h').1 (by decide)
  | not h _ ih =>
    cases h' with
    | not h' inside =>
      obtain ⟨rfl, -⟩ := List.cons.inj (h.unique h').2
      rw [ih inside]
    | literal h' | var h' | and h' | or h' | compare h' => exact absurd (h.unique h').1 (by decide)
  | and h _ _ ihleft ihright =>
    cases h' with
    | and h' hleft hright =>
      obtain ⟨rfl, hrest⟩ := List.cons.inj (h.unique h').2
      obtain ⟨rfl, -⟩ := List.cons.inj hrest
      rw [ihleft hleft, ihright hright]
    | literal h' | var h' | not h' | or h' | compare h' => exact absurd (h.unique h').1 (by decide)
  | or h _ _ ihleft ihright =>
    cases h' with
    | or h' hleft hright =>
      obtain ⟨rfl, hrest⟩ := List.cons.inj (h.unique h').2
      obtain ⟨rfl, -⟩ := List.cons.inj hrest
      rw [ihleft hleft, ihright hright]
    | literal h' | var h' | not h' | and h' | compare h' => exact absurd (h.unique h').1 (by decide)
  | compare h _ _ _ ihleft ihright =>
    cases h' with
    | compare h' _ hleft hright =>
      obtain ⟨hop, hsides⟩ := List.cons.inj (h.unique h').2
      obtain ⟨rfl, hrest⟩ := List.cons.inj hsides
      obtain ⟨rfl, -⟩ := List.cons.inj hrest
      rw [Comparison.symbol_injective (Json.text.inj hop), ihleft hleft, ihright hright]
    | literal h' | var h' | not h' | and h' | or h' => exact absurd (h.unique h').1 (by decide)

theorem symbol_mem_operators (op : Comparison) : op.symbol ∈ Script.operators := by
  rw [Script.nodeFields_operators_eq.2]
  cases op <;> decide

/-- The fields of a node are those that the interpreter reads. -/
theorem denotes_toJson (tree : Tree) : Denotes tree.toJson tree := by
  induction tree with
  | literal value => exact .literal ⟨rfl, _, by rw [Script.nodeFields_operators_eq.1]; rfl, rfl⟩
  | var name => exact .var ⟨rfl, _, by rw [Script.nodeFields_operators_eq.1]; rfl, rfl⟩
  | not operand ih => exact .not ⟨rfl, _, by rw [Script.nodeFields_operators_eq.1]; rfl, rfl⟩ ih
  | and left right ihleft ihright =>
    exact .and ⟨rfl, _, by rw [Script.nodeFields_operators_eq.1]; rfl, rfl⟩ ihleft ihright
  | or left right ihleft ihright =>
    exact .or ⟨rfl, _, by rw [Script.nodeFields_operators_eq.1]; rfl, rfl⟩ ihleft ihright
  | compare op left right ihleft ihright =>
    exact .compare ⟨rfl, _, by rw [Script.nodeFields_operators_eq.1]; rfl, rfl⟩
      (symbol_mem_operators op)
      ihleft ihright

/-! ## The numbers of a condition -/

theorem isReadable_ofDecimal (digits : List Nat) (exponent : Int) :
    (Json.float (Binary64.ofDecimal false digits exponent)).IsReadable := by
  rcases Binary64.ofDecimal_cases false digits exponent with hinfinite | ⟨units, hunits, hfinite⟩
  · rw [hinfinite]
    exact .infinite
  · rw [hfinite]
    exact .finite false hunits

theorem isReadable_of_number {t rest : Text} {x : Binary64}
    (h : number t = .ok (.float x, rest)) : (Json.float x).IsReadable := by
  rw [number] at h
  dsimp only at h
  split_ifs at h
  · cases h
  · cases h
    exact isReadable_ofDecimal _ _

theorem operator?_ne_float {t rest : Text} {x : Binary64} :
    operator? t ≠ some (.float x, rest) := by
  intro h
  obtain ⟨⟨symbol, found⟩, hmem, hfound⟩ := List.exists_of_findSome?_eq_some h
  obtain ⟨after, -, hpair⟩ := Option.map_eq_some_iff.mp hfound
  obtain rfl : found = .float x := (Prod.mk.inj hpair).1
  simp [operators] at hmem

theorem isReadable_of_lexeme? {t rest : Text} {x : Binary64}
    (h : lexeme? t = .ok (some (.float x, rest))) : (Json.float x).IsReadable := by
  unfold lexeme? at h
  split at h
  · cases h
  · split_ifs at h
    · obtain ⟨found, hnumber, hfound⟩ := exists_of_map_eq_ok h
      obtain rfl := Option.some.inj hfound
      exact isReadable_of_number hnumber
    · obtain ⟨⟨inside, after⟩, -, hpair⟩ := Option.map_eq_some_iff.mp (Except.ok.inj h)
      cases (Prod.mk.inj hpair).1
    · split at h
      · next found hname =>
        obtain rfl := Option.some.inj (Except.ok.inj h)
        unfold name? at hname
        split at hname
        · split_ifs at hname
          cases (Prod.mk.inj (Option.some.inj hname)).1
        · split_ifs at hname
          cases (Prod.mk.inj (Option.some.inj hname)).1
        · cases hname
      · exact absurd (Except.ok.inj h) operator?_ne_float

theorem isReadable_of_scanFrom {offset : Nat} {t : Text} {tokens : List Token}
    (h : scanFrom offset t = .ok tokens) {token : Token} (hmem : token ∈ tokens) {x : Binary64}
    (hfloat : token.lexeme = .float x) : (Json.float x).IsReadable := by
  fun_induction scanFrom offset t generalizing tokens with
  | case1 =>
    cases h
    cases hmem
  | case2 offset c cs hblank ih => exact ih h hmem
  | case3 | case4 | case5 | case7 => cases h
  | case6 offset c cs hblank lexeme rest hlexeme hshort more hrest ih =>
    cases h
    rcases List.mem_cons.mp hmem with rfl | hmem
    · obtain rfl : lexeme = .float x := hfloat
      exact isReadable_of_lexeme? hlexeme
    · exact ih hrest hmem

theorem isReadable_node {kind : Text} {members : List (Text × Json)}
    (h : ∀ member ∈ members, member.2.IsReadable) :
    (Json.object (("type", .text kind) :: members)).IsReadable :=
  .object (List.forall_mem_cons.mpr ⟨.text kind, h⟩)

theorem Derives.isReadable {known : List Text} {part : Part} {ts : List Lexeme} {tree : Tree}
    (h : Derives known part ts tree)
    (hfloats : ∀ x, Lexeme.float x ∈ ts → (Json.float x).IsReadable) : tree.toJson.IsReadable := by
  induction h with
  | whole n => exact isReadable_node (List.forall_mem_singleton.mpr (.int n))
  | float x =>
    exact isReadable_node (List.forall_mem_singleton.mpr (hfloats x (List.mem_singleton_self _)))
  | text t => exact isReadable_node (List.forall_mem_singleton.mpr (.text t))
  | yes | no => exact isReadable_node (List.forall_mem_singleton.mpr (.bool _))
  | null => exact isReadable_node (List.forall_mem_singleton.mpr .null)
  | name => exact isReadable_node (List.forall_mem_singleton.mpr (.text _))
  | parentheses _ ih =>
    exact ih fun x hx ↦ hfloats x (List.mem_cons_of_mem _ (List.mem_append_left _ hx))
  | alone _ ih | plain _ ih | firstNegation _ ih | firstConjunction _ ih => exact ih hfloats
  | not _ ih =>
    exact isReadable_node (List.forall_mem_singleton.mpr
      (ih fun x hx ↦ hfloats x (List.mem_cons_of_mem _ hx)))
  | compare op _ _ ihleft ihright =>
    have hleft := ihleft fun x hx ↦ hfloats x (List.mem_append_left _ hx)
    have hright := ihright fun x hx ↦
      hfloats x (List.mem_append_right _ (List.mem_cons_of_mem _ hx))
    exact isReadable_node (List.forall_mem_cons.mpr ⟨.text op.symbol,
      List.forall_mem_cons.mpr ⟨hleft, List.forall_mem_singleton.mpr hright⟩⟩)
  | and _ _ ihleft ihright | or _ _ ihleft ihright =>
    have hleft := ihleft fun x hx ↦ hfloats x (List.mem_append_left _ hx)
    have hright := ihright fun x hx ↦
      hfloats x (List.mem_append_right _ (List.mem_cons_of_mem _ hx))
    exact isReadable_node (List.forall_mem_cons.mpr ⟨hleft, List.forall_mem_singleton.mpr hright⟩)

theorem isReadable_of_parse {condition : Text} {known : List Text} {tree : Tree}
    (h : parse condition known = .ok tree) : tree.toJson.IsReadable := by
  rw [parse] at h
  split at h
  · cases h
  · next tokens hscan =>
    refine ((ofTokens_eq_ok_iff (spelled_of_scanFrom hscan)).mp h).isReadable fun x hx ↦ ?_
    obtain ⟨token, hmem, hfloat⟩ := List.mem_map.mp hx
    exact isReadable_of_scanFrom hscan hmem hfloat

/-! ## Texts of conditions -/

/-- Whether a text is one from which the interpreter gets a tree. -/
def Decodes (text : Text) (tree : Tree) : Prop :=
  ∃ node, Json.read text = some node ∧ Denotes node tree

theorem read_toScript {condition : Text} {known : List Text} {tree : Tree}
    (h : parse condition known = .ok tree) : Json.read tree.toScript = some tree.toJson :=
  Json.read_write JsonStyle.isStandard_compact (isReadable_of_parse h)

theorem decodes_toScript_iff {condition : Text} {known : List Text} {tree : Tree}
    (h : parse condition known = .ok tree) (other : Tree) :
    Decodes tree.toScript other ↔ other = tree := by
  constructor
  · rintro ⟨node, hnode, hother⟩
    obtain rfl := Option.some.inj ((read_toScript h).symm.trans hnode)
    exact hother.unique (denotes_toJson tree)
  · rintro rfl
    exact ⟨_, read_toScript h, denotes_toJson other⟩

/-- **The text of a condition is printable ASCII on one line, and the interpreter of the running
page reads one tree from it, the tree that it was written for.** So no two trees that conditions are
read to have the same text. -/
theorem toScript_decodes {condition : Text} {known : List Text} {tree : Tree}
    (h : parse condition known = .ok tree) :
    Json.IsPlain tree.toScript ∧ (∀ other, Decodes tree.toScript other ↔ other = tree) ∧
      ∀ condition' known' other, parse condition' known' = .ok other →
        other.toScript = tree.toScript → other = tree := by
  refine ⟨Json.isPlain_writeAt (isReadable_of_parse h) 0, decodes_toScript_iff h, ?_⟩
  intro condition' known' other hother htext
  have hdecodes : Decodes other.toScript other := (decodes_toScript_iff hother other).mpr rfl
  rw [htext] at hdecodes
  exact (decodes_toScript_iff h other).mp hdecodes

/-- A decimal, and a text with a quote, a line feed and a character outside the basic plane. -/
theorem toScript_decodes_awkward :
    ∃ tree, parse "!($a >= 0.1) || $b === \"\\\"\\n😀\"" ["a", "b"] = .ok tree ∧
      Json.IsPlain tree.toScript ∧ ∀ other, Decodes tree.toScript other ↔ other = tree := by
  have hparse : parse "!($a >= 0.1) || $b === \"\\\"\\n😀\"" ["a", "b"] =
      .ok (.or
        (.not (.compare .atLeast (.var "a")
          (.literal (.float (Binary64.ofDecimal false [0, 1] (-1))))))
        (.compare .identical (.var "b") (.literal (.text "\"\n😀")))) := by
    decide +kernel
  obtain ⟨hplain, hdecodes, -⟩ := toScript_decodes hparse
  exact ⟨_, hparse, hplain, hdecodes⟩

end Condition

end PageCompiler
