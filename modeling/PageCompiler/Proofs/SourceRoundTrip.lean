import PageCompiler.Component
import PageCompiler.Proofs.FrontMatterRoundTrip

/-!
# Reading written sources

A source is written as an optional block of front matter and a row of declarations, with lines that
declare nothing among them. Reading it gives back what was written, and for every declaration the
number of the line on which it begins.

The argument goes by declarations: outside of all blocks, the lines of one declaration are scanned
to its token and leave the scanner outside again, whatever follows. Within a declaration there are
two things to show. Its first line has exactly the form that was meant, although seven forms compete
for it; and the lines of a block are taken up to its closing line, neither fewer nor more.
-/

namespace PageCompiler

namespace Source

/-! ## Written declarations -/

/-- A declaration, or a line that declares nothing, as an author writes it. -/
inductive Written where
  | imported (name path : Text)
  /-- A reactive variable and its first value. -/
  | reactive (name expression : Text)
  /-- A computed variable and its value. -/
  | computed (name expression : Text)
  /-- A function with the lines of its body. -/
  | function (name parameters : Text) (body : List Text)
  /-- A function on a single line. -/
  | shortFunction (name parameters body : Text)
  /-- A template with the lines of its markup. -/
  | template (markup : List Text)
  /-- The name of the component, and what follows it on its line. -/
  | componentName (name tail : Text)
  /-- A blank line or a remark. -/
  | idle (line : Text)
  deriving DecidableEq, Repr

namespace Written

/-- The line that begins a function, up to the opening brace. -/
def functionOpening (name parameters : Text) : Text :=
  "$" ++ name ++ " = (" ++ parameters ++ ") => \x7b"

def lines : Written → List Text
  | imported name path => ["import " ++ name ++ " from \"" ++ path ++ "\""]
  | reactive name expression => ["$" ++ name ++ "! = " ++ expression]
  | computed name expression => ["$" ++ name ++ " = " ++ expression]
  | function name parameters body => functionOpening name parameters :: (body ++ [("\x7d" : Text)])
  | shortFunction name parameters body =>
    [functionOpening name parameters ++ " " ++ body ++ " \x7d"]
  | template markup => templateOpening :: (markup ++ [templateClosing])
  | componentName name tail => ["export default function " ++ name ++ tail]
  | idle line => [line]

/-- Whether parameters can stand on the first line of a function. -/
def ParametersFit (parameters : Text) : Prop :=
  Text.trim parameters = parameters ∧ ')' ∉ parameters ∧ '\n' ∉ parameters

/-- Whether an expression can stand on the line of a variable. -/
def ExpressionFits (expression : Text) : Prop :=
  Text.trim expression = expression ∧ expression ≠ [] ∧ '\n' ∉ expression

/-- Whether a declaration can be written as it is: its parts fit on their lines, and no line of a
block closes it. -/
def WellFormed : Written → Prop
  | imported name path =>
    Text.IsName name ∧ path ≠ [] ∧ (∀ c ∈ path, c ≠ '"' ∧ c ≠ '\'') ∧ '\n' ∉ path
  | reactive name expression => Text.IsName name ∧ ExpressionFits expression
  | computed name expression =>
    Text.IsName name ∧ ExpressionFits expression ∧ ¬(("=>" : Text) <:+: expression)
  | function name parameters body =>
    Text.IsName name ∧ ParametersFit parameters ∧
      ∀ line ∈ body, '\n' ∉ line ∧ Text.trim line ≠ ['\x7d']
  | shortFunction name parameters body =>
    Text.IsName name ∧ ParametersFit parameters ∧ Text.trim body = body ∧ '\n' ∉ body
  | template markup =>
    ∀ line ∈ markup, '\n' ∉ line ∧ ¬(("</template>" : Text) <:+ Text.trimRight line)
  | componentName name tail =>
    Text.IsName name ∧ (∀ c ∈ tail.head?, isWord c = false) ∧ '\n' ∉ tail
  | idle line => '\n' ∉ line ∧ ((∀ c ∈ line, isBlank c = true) ∨ ("//" : Text) <+: Text.trim line)

instance (parameters : Text) : Decidable (ParametersFit parameters) :=
  inferInstanceAs (Decidable (_ ∧ _))

instance (expression : Text) : Decidable (ExpressionFits expression) :=
  inferInstanceAs (Decidable (_ ∧ _))

instance : (w : Written) → Decidable w.WellFormed
  | imported _ _ => inferInstanceAs (Decidable (_ ∧ _))
  | reactive _ _ => inferInstanceAs (Decidable (_ ∧ _))
  | computed _ _ => inferInstanceAs (Decidable (_ ∧ _))
  | function _ _ _ => inferInstanceAs (Decidable (_ ∧ _))
  | shortFunction _ _ _ => inferInstanceAs (Decidable (_ ∧ _))
  | template markup => inferInstanceAs (Decidable (∀ line ∈ markup, _ ∧ _))
  | componentName _ _ => inferInstanceAs (Decidable (_ ∧ _))
  | idle _ => inferInstanceAs (Decidable (_ ∧ _))

end Written

/-- Declarations with the numbers of the lines on which they begin, when the first one begins on the
given line. -/
def placed (number : Nat) : List Written → List (Nat × Written)
  | [] => []
  | w :: ws => (number, w) :: placed (number + w.lines.length) ws

/-- The lines of the front matter, of which there are none when it is left out. -/
def headerLines (header : Option (List FrontMatter.WrittenField)) : List Text :=
  (header.map FrontMatter.blockLines).getD []

def sourceLines (header : Option (List FrontMatter.WrittenField)) (ws : List Written) : List Text :=
  headerLines header ++ ws.flatMap Written.lines

/-! ## The component that was written -/

namespace Written

def import? (line : Nat) : Written → Option Import
  | imported name path => some ⟨line, name, path, none⟩
  | _ => none

def var? (line : Nat) : Written → Option Variable
  | reactive name expression => some ⟨line, name, true, expression⟩
  | computed name expression => some ⟨line, name, false, expression⟩
  | _ => none

def function? (line : Nat) : Written → Option Function
  | function name parameters body => some ⟨line, name, parameters, Text.unlines body⟩
  | shortFunction name parameters body => some ⟨line, name, parameters, body⟩
  | _ => none

def template? (line : Nat) : Written → Option Template
  | template markup => some ⟨line, Text.unlines markup⟩
  | _ => none

def componentName? : Written → Option Text
  | componentName name _ => some name
  | _ => none

end Written

/-- The component that placed declarations describe: all imports, variables and functions in order,
the last template, and the last name, if there is any. -/
def writtenComponent (file : Text) (fields : FrontMatter) (ws : List (Nat × Written)) :
    Component where
  file := file
  fields := fields
  name := ((ws.filterMap fun (_, w) ↦ w.componentName?).getLast?).getD "Component"
  imports := ws.filterMap fun (line, w) ↦ w.import? line
  vars := ws.filterMap fun (line, w) ↦ w.var? line
  functions := ws.filterMap fun (line, w) ↦ w.function? line
  template := (ws.filterMap fun (line, w) ↦ w.template? line).getLast?

/-! ## What the lines of declarations say

The first character decides most of the competition: only an import begins with an `i`, and only
variables and functions begin with a dollar sign. -/

section Forms

variable {c : Char} {t name rest : Text}

theorem not_idle_of_head (hblank : isBlank c = false) (hslash : c ≠ '/') (t : Text) :
    ((Text.trim (c :: t)).isEmpty || Text.startsWith (Text.trim (c :: t)) "//") = false := by
  obtain ⟨u, hu⟩ := Text.trim_cons_of_not_isBlank hblank t
  rw [hu, List.isEmpty_cons, Bool.false_or, Bool.eq_false_iff, ne_eq, Text.startsWith_iff]
  intro hstart
  exact hslash (List.cons_prefix_cons.mp (hstart : ['/', '/'] <+: c :: u)).1.symm

theorem import?_of_head (hblank : isBlank c = false) (hne : c ≠ 'i') (t : Text) :
    Source.import? (c :: t) = none := by
  have hafter : Text.after? "import" (c :: t) = none := if_neg (Ne.symm hne)
  rw [import?, Text.trimLeft_cons_of_not_isBlank hblank, hafter]
  rfl

theorem declared?_of_head (hblank : isBlank c = false) (hne : c ≠ '$') (t : Text) :
    declared? (c :: t) = none := by
  have hafter : Text.after? ['$'] (c :: t) = none := if_neg (Ne.symm hne)
  rw [declared?, Text.trimLeft_cons_of_not_isBlank hblank, hafter]
  rfl

theorem declared?_dollar (hname : Text.IsName name)
    (hrest : ∀ c, rest.head? = some c → isWord c = false) :
    declared? ('$' :: (name ++ rest)) = some (name, rest) := by
  have hafter : Text.after? ['$'] ('$' :: (name ++ rest)) = some (name ++ rest) := rfl
  rw [declared?, Text.trimLeft_cons_of_not_isBlank (by decide), hafter]
  exact hname.word?_append hrest

theorem assigned?_equals (value : Text) :
    assigned? (' ' :: '=' :: ' ' :: value) = some (' ' :: value) := by
  have htrim : Text.trimLeft (' ' :: '=' :: ' ' :: value) = '=' :: ' ' :: value := by
    rw [Text.trimLeft_cons_of_isBlank (by decide), Text.trimLeft_cons_of_not_isBlank (by decide)]
  rw [assigned?, htrim]
  rfl

end Forms

theorem import?_written {name path : Text} (hname : Text.IsName name) (hpath : path ≠ [])
    (hquote : ∀ c ∈ path, c ≠ '"' ∧ c ≠ '\'') :
    Source.import? ("import " ++ name ++ " from \"" ++ path ++ "\"") = some (name, path) := by
  -- The line is read from left to right; `more` is what is left at a blank.
  have hfrom : ∀ more : Text, Text.trimLeft ("from" ++ more) = "from" ++ more := fun more ↦
    Text.trimLeft_cons_of_not_isBlank (by decide) _
  have hopening : ∀ more : Text, Text.trimLeft ('"' :: more) = '"' :: more := fun more ↦
    Text.trimLeft_cons_of_not_isBlank (by decide) more
  have hword : ∀ more : Text, Text.word? (name ++ ' ' :: more) = some (name, ' ' :: more) := by
    refine fun more ↦ hname.word?_append fun c hc ↦ ?_
    obtain rfl : ' ' = c := Option.some.inj hc
    decide
  have hchar : ∀ more : Text, Text.char? isQuote ('"' :: more) = some ('"', more) := fun _ ↦ rfl
  have hrun : Text.run? (fun c ↦ !isQuote c) (path ++ ['"']) = some (path, ['"']) := by
    refine Text.run?_append hpath (fun c hc ↦ ?_) fun c hc ↦ ?_
    · simp [isQuote, hquote c hc]
    · obtain rfl : '"' = c := Option.some.inj hc
      rfl
  have hline : ("import " ++ name ++ " from \"" ++ path ++ "\"" : Text) =
      "import" ++ ' ' :: (name ++ ' ' :: ("from" ++ ' ' :: '"' :: (path ++ ['"']))) := by simp
  rw [hline, import?]
  have hstart : ∀ more : Text, Text.trimLeft ("import" ++ more) = "import" ++ more := fun more ↦
    Text.trimLeft_cons_of_not_isBlank (by decide) _
  simp only [hstart, Text.after?_append, Option.bind_eq_bind, Option.bind_some, Text.blanks?_blank,
    hname.trimLeft_append, hword, hfrom, hopening, hchar, hrun]
  rfl

theorem readLine_imported {name path : Text} (hname : Text.IsName name) (hpath : path ≠ [])
    (hquote : ∀ c ∈ path, c ≠ '"' ∧ c ≠ '\'') :
    readLine ("import " ++ name ++ " from \"" ++ path ++ "\"") = .imported name path := by
  have hidle := not_idle_of_head (c := 'i') (by decide) (by decide)
    ("mport " ++ name ++ " from \"" ++ path ++ "\"")
  rw [readLine, import?_written hname hpath hquote]
  exact if_neg (Bool.eq_false_iff.mp hidle)

/-- A line that begins with a dollar sign is read as the first of the three forms with a name. -/
theorem readLine_dollar (t : Text) :
    readLine ('$' :: t) =
      match reactive? ('$' :: t), computed? ('$' :: t), function? ('$' :: t) with
      | some (name, expression), _, _ => .reactive name expression
      | none, some (name, expression), _ => .computed name expression
      | none, none, some (name, parameters, rest) => .function name parameters rest
      | none, none, none =>
        match Text.after? templateOpening (Text.trim ('$' :: t)) with
        | some rest => .template rest
        | none =>
          match Text.find? readComponentName ('$' :: t) with
          | some name => .componentName name
          | none => .other := by
  have hidle := not_idle_of_head (c := '$') (by decide) (by decide) t
  have himport := import?_of_head (c := '$') (by decide) (by decide) t
  rw [readLine, himport]
  refine (if_neg (Bool.eq_false_iff.mp hidle)).trans ?_
  cases reactive? ('$' :: t) with
  | some found => rfl
  | none =>
    cases computed? ('$' :: t) with
    | some found => rfl
    | none => cases function? ('$' :: t) <;> rfl

theorem readLine_reactive {name expression : Text} (hname : Text.IsName name)
    (hexpression : Text.trim expression = expression) :
    readLine ("$" ++ name ++ "! = " ++ expression) = .reactive name expression := by
  have hline : ("$" ++ name ++ "! = " ++ expression : Text) =
      '$' :: (name ++ '!' :: ' ' :: '=' :: ' ' :: expression) := by simp
  have hdeclared : declared? ('$' :: (name ++ '!' :: ' ' :: '=' :: ' ' :: expression)) =
      some (name, '!' :: ' ' :: '=' :: ' ' :: expression) := by
    refine declared?_dollar hname fun c hc ↦ ?_
    obtain rfl : '!' = c := Option.some.inj hc
    decide
  have hmark : Text.after? ['!'] ('!' :: ' ' :: '=' :: ' ' :: expression) =
      some (' ' :: '=' :: ' ' :: expression) := rfl
  have hreactive : reactive? ('$' :: (name ++ '!' :: ' ' :: '=' :: ' ' :: expression)) =
      some (name, expression) := by
    simp only [reactive?, hdeclared, Option.bind_eq_bind, Option.bind_some, hmark,
      assigned?_equals, Text.trim_cons_of_isBlank (show isBlank ' ' = true by decide), hexpression]
  rw [hline, readLine_dollar, hreactive]

theorem declared?_equals {name : Text} (hname : Text.IsName name) (value : Text) :
    declared? ('$' :: (name ++ ' ' :: '=' :: ' ' :: value)) =
      some (name, ' ' :: '=' :: ' ' :: value) := by
  refine declared?_dollar hname fun c hc ↦ ?_
  obtain rfl : ' ' = c := Option.some.inj hc
  decide

theorem reactive?_equals {name : Text} (hname : Text.IsName name) (value : Text) :
    reactive? ('$' :: (name ++ ' ' :: '=' :: ' ' :: value)) = none := by
  simp only [reactive?, declared?_equals hname, Option.bind_eq_bind, Option.bind_some]
  rfl

theorem readLine_computed {name expression : Text} (hname : Text.IsName name)
    (hexpression : Text.trim expression = expression) (harrow : ¬(("=>" : Text) <:+: expression)) :
    readLine ("$" ++ name ++ " = " ++ expression) = .computed name expression := by
  have hline : ("$" ++ name ++ " = " ++ expression : Text) =
      '$' :: (name ++ ' ' :: '=' :: ' ' :: expression) := by simp
  have hcontains : Text.contains (' ' :: expression) "=>" = false := by
    rw [Bool.eq_false_iff, ne_eq, Text.contains_iff, List.infix_cons_iff]
    rintro (hstart | hinside)
    · exact absurd (List.cons_prefix_cons.mp (hstart : ['=', '>'] <+: ' ' :: expression)).1
        (by decide)
    · exact harrow hinside
  have hcomputed : computed? ('$' :: (name ++ ' ' :: '=' :: ' ' :: expression)) =
      some (name, expression) := by
    simp only [computed?, declared?_equals hname, Option.bind_eq_bind, Option.bind_some,
      assigned?_equals, hcontains, Text.trim_cons_of_isBlank (show isBlank ' ' = true by decide),
      hexpression]
    rfl
  rw [hline, readLine_dollar, reactive?_equals hname, hcomputed]

theorem readLine_function {name parameters : Text} (hname : Text.IsName name)
    (hparameters : Written.ParametersFit parameters) (rest : Text) :
    readLine (Written.functionOpening name parameters ++ rest) =
      .function name parameters (Text.trimRight rest) := by
  obtain ⟨htrim, hclosing, -⟩ := hparameters
  have hline : Written.functionOpening name parameters ++ rest =
      '$' :: (name ++ ' ' :: '=' :: ' ' ::
        ('(' :: (parameters ++ ')' :: ' ' :: '=' :: '>' :: ' ' :: '\x7b' :: rest))) := by
    simp [Written.functionOpening]
  have harrow : Text.contains (' ' :: '(' ::
      (parameters ++ ')' :: ' ' :: '=' :: '>' :: ' ' :: '\x7b' :: rest)) "=>" = true :=
    Text.contains_iff.mpr
      ⟨' ' :: '(' :: (parameters ++ [')', ' ']), ' ' :: '\x7b' :: rest, by simp⟩
  have hcomputed : computed? ('$' :: (name ++ ' ' :: '=' :: ' ' ::
      ('(' :: (parameters ++ ')' :: ' ' :: '=' :: '>' :: ' ' :: '\x7b' :: rest)))) = none := by
    simp only [computed?, declared?_equals hname, Option.bind_eq_bind, Option.bind_some,
      assigned?_equals, harrow]
    rfl
  -- The parts behind the name, in the order in which they are read.
  have hequals : ∀ more : Text,
      Text.after? ['='] (Text.trimLeft (' ' :: '=' :: more)) = some more :=
    Text.after?_trimLeft (by decide) []
  have hopening : ∀ more : Text,
      Text.after? ['('] (Text.trimLeft (' ' :: '(' :: more)) = some more :=
    Text.after?_trimLeft (by decide) []
  have hbetween : ∀ more : Text,
      Text.after? "=>" (Text.trimLeft (' ' :: '=' :: '>' :: more)) = some more :=
    Text.after?_trimLeft (by decide) ['>']
  have hbrace : ∀ more : Text,
      Text.after? ['\x7b'] (Text.trimLeft (' ' :: '\x7b' :: more)) = some more :=
    Text.after?_trimLeft (by decide) []
  have hfunction : function? ('$' :: (name ++ ' ' :: '=' :: ' ' ::
      ('(' :: (parameters ++ ')' :: ' ' :: '=' :: '>' :: ' ' :: '\x7b' :: rest)))) =
        some (name, parameters, Text.trimRight rest) := by
    simp only [function?, declared?_equals hname, Option.bind_eq_bind, Option.bind_some, hequals,
      hopening, Text.upTo?_append_cons hclosing, hbetween, hbrace, htrim]
  rw [hline, readLine_dollar, reactive?_equals hname, hcomputed, hfunction]

theorem readLine_templateOpening : readLine templateOpening = .template [] := by decide

theorem readComponentName_written {name tail : Text} (hname : Text.IsName name)
    (htail : ∀ c ∈ tail.head?, isWord c = false) :
    readComponentName ("export default function " ++ name ++ tail) = some (name, tail) := by
  have hdefault : ∀ more : Text, Text.trimLeft ("default" ++ more) = "default" ++ more := fun more ↦
    Text.trimLeft_cons_of_not_isBlank (by decide) _
  have hfunction : ∀ more : Text, Text.trimLeft ("function" ++ more) = "function" ++ more :=
    fun more ↦ Text.trimLeft_cons_of_not_isBlank (by decide) _
  have hline : ("export default function " ++ name ++ tail : Text) =
      "export" ++ ' ' :: ("default" ++ ' ' :: ("function" ++ ' ' :: (name ++ tail))) := by simp
  rw [hline, readComponentName]
  simp only [Text.after?_append, Option.bind_eq_bind, Option.bind_some, Text.blanks?_blank,
    hdefault, hfunction, hname.trimLeft_append, hname.word?_append htail]

theorem readLine_componentName {name tail : Text} (hname : Text.IsName name)
    (htail : ∀ c ∈ tail.head?, isWord c = false) :
    readLine ("export default function " ++ name ++ tail) = .componentName name := by
  obtain ⟨more, hline⟩ :
      ∃ more, ("export default function " ++ name ++ tail : Text) = 'e' :: more :=
    ⟨"xport default function " ++ name ++ tail, rfl⟩
  have hidle := not_idle_of_head (c := 'e') (by decide) (by decide) more
  have himport := import?_of_head (c := 'e') (by decide) (by decide) more
  have hdeclared := declared?_of_head (c := 'e') (by decide) (by decide) more
  have htemplate : Text.after? templateOpening (Text.trim ('e' :: more)) = none := by
    obtain ⟨u, hu⟩ := Text.trim_cons_of_not_isBlank (c := 'e') (by decide) more
    rw [hu]
    rfl
  have hfound : Text.find? readComponentName ('e' :: more) = some name := by
    rw [Text.find?, ← hline, readComponentName_written hname htail]
  rw [hline]
  simp only [readLine, hidle, himport, reactive?, computed?, function?, hdeclared, htemplate,
    hfound]
  rfl

theorem readLine_idle {line : Text}
    (h : (∀ c ∈ line, isBlank c = true) ∨ ("//" : Text) <+: Text.trim line) :
    readLine line = .empty := by
  have hidle : ((Text.trim line).isEmpty || Text.startsWith (Text.trim line) "//") = true := by
    rcases h with hblank | hremark
    · rw [Text.trim_of_isBlank hblank]
      rfl
    · rw [Text.startsWith_iff.mpr hremark, Bool.or_true]
  rw [readLine]
  exact if_pos hidle

/-! ## Scanning the lines of a declaration -/

def Written.declaration? : Written → Option Declaration
  | .imported name path => some (.imported name path none)
  | .reactive name expression => some (.reactive name expression)
  | .computed name expression => some (.computed name expression)
  | .function name parameters body => some (.function name parameters (Text.unlines body))
  | .shortFunction name parameters body => some (.function name parameters body)
  | .template markup => some (.template (Text.unlines markup))
  | .componentName name _ => some (.componentName name)
  | .idle _ => none

def Written.events (number : Int) (w : Written) : List Event :=
  w.declaration?.toList.map fun d ↦ .token ⟨number, d⟩

theorem scanFrom_cons (number : Int) (block : Block) (line : Text) (rest : List Text) :
    scanFrom number block (line :: rest) =
      (step number block line).1 ++ scanFrom (number + 1) (step number block line).2 rest := rfl

/-- Lines that do not close a block are taken into it. -/
theorem scanFrom_taken (block : List Text → Block) {ls : List Text}
    (h : ∀ line ∈ ls, ∀ number taken, step number (block taken) line =
      ([], block (taken ++ [line]))) (number : Int) (taken rest : List Text) :
    scanFrom number (block taken) (ls ++ rest) =
      scanFrom (number + ls.length) (block (taken ++ ls)) rest := by
  induction ls generalizing number taken with
  | nil => simp
  | cons line ls ih =>
    have hnumber : number + 1 + (ls.length : Int) = number + ((line :: ls).length : Int) := by
      simp only [List.length_cons]
      omega
    rw [List.cons_append, scanFrom_cons, h line List.mem_cons_self,
      ih (fun l hl ↦ h l (List.mem_cons_of_mem _ hl)), hnumber, List.append_assoc]
    rfl

/-- The body of a function is taken up to the closing brace, which is the first line that is one. -/
theorem scanFrom_function_body {body : List Text} (h : ∀ line ∈ body, Text.trim line ≠ ['\x7d'])
    (number start : Int) (name parameters : Text) (taken rest : List Text) :
    scanFrom number (.function start name parameters taken) (body ++ ("\x7d" : Text) :: rest) =
      .token ⟨start, .function name parameters (Text.unlines (taken ++ body))⟩ ::
        scanFrom (number + body.length + 1) .outside rest := by
  have hopen : ∀ line ∈ body, ¬closesFunction line = true := by
    intro line hline
    rw [closesFunction, beq_iff_eq]
    exact h line hline
  have hclosing : closesFunction "\x7d" = true := by decide
  rw [scanFrom_taken (.function start name parameters) fun l hl _ _ ↦ if_neg (hopen l hl),
    scanFrom_cons, step, if_pos hclosing]
  rfl

/-- The markup of a template is taken up to the closing tag, which is on the first line that ends
with one. -/
theorem scanFrom_template_markup {markup : List Text}
    (h : ∀ line ∈ markup, ¬(("</template>" : Text) <:+ Text.trimRight line))
    (number start : Int) (taken rest : List Text) :
    scanFrom number (.template start taken) (markup ++ templateClosing :: rest) =
      .token ⟨start, .template (Text.unlines (taken ++ markup))⟩ ::
        scanFrom (number + markup.length + 1) .outside rest := by
  have hopen : ∀ line ∈ markup, ¬closesTemplate line = true := by
    intro line hline
    rw [closesTemplate, Text.endsWith_iff]
    exact h line hline
  have hclosing : closesTemplate templateClosing = true := by decide
  have hbefore : lineUnlessBlank (beforeClosing templateClosing) = [] := by decide
  rw [scanFrom_taken (.template start) fun l hl _ _ ↦ if_neg (hopen l hl),
    scanFrom_cons, step, if_pos hclosing, hbefore, List.append_nil]
  rfl

theorem step_shortFunction {name parameters body : Text} (hname : Text.IsName name)
    (hparameters : Written.ParametersFit parameters) (hbody : Text.trim body = body)
    (number : Int) :
    step number .outside (Written.functionOpening name parameters ++ " " ++ body ++ " \x7d") =
      ([.token ⟨number, .function name parameters body⟩], .outside) := by
  have hrest : Text.trimRight (' ' :: (body ++ [' ', '\x7d'])) =
      ' ' :: (body ++ [' ']) ++ ['\x7d'] := by
    rw [show ' ' :: (body ++ [' ', '\x7d']) = ' ' :: (body ++ [' ']) ++ ['\x7d'] by simp]
    exact Text.trimRight_concat_of_not_isBlank (by decide) _
  have htrim : Text.trim (' ' :: (body ++ [' '])) = body := by
    rw [Text.trim_cons_of_isBlank (by decide), Text.trim_concat_of_isBlank (by decide), hbody]
  have hread := readLine_function hname hparameters (' ' :: (body ++ [' ', '\x7d']))
  rw [hrest] at hread
  rw [show (Written.functionOpening name parameters ++ " " ++ body ++ " \x7d" : Text) =
    Written.functionOpening name parameters ++ ' ' :: (body ++ [' ', '\x7d']) by simp]
  simp only [step, hread, Text.before?_eq_some_iff.mpr rfl, htrim]

variable {w : Written} {ws : List Written}

/-- The lines of a declaration are scanned to its token, and what follows is scanned as if the
declaration were not there, but for the line numbers. -/
theorem scanFrom_written (h : w.WellFormed) (number : Int) (rest : List Text) :
    scanFrom number .outside (w.lines ++ rest) =
      w.events number ++ scanFrom (number + w.lines.length) .outside rest := by
  cases w with
  | imported name path =>
    obtain ⟨hname, hpath, hquote, -⟩ := h
    simp only [Written.lines, List.singleton_append, scanFrom_cons, step,
      readLine_imported hname hpath hquote]
    rfl
  | reactive name expression =>
    obtain ⟨hname, htrim, -, -⟩ := h
    simp only [Written.lines, List.singleton_append, scanFrom_cons, step,
      readLine_reactive hname htrim]
    rfl
  | computed name expression =>
    obtain ⟨hname, ⟨htrim, -, -⟩, harrow⟩ := h
    simp only [Written.lines, List.singleton_append, scanFrom_cons, step,
      readLine_computed hname htrim harrow]
    rfl
  | function name parameters body =>
    obtain ⟨hname, hparameters, hbody⟩ := h
    have hread : readLine (Written.functionOpening name parameters) =
        .function name parameters (Text.trimRight []) := by
      simpa using readLine_function hname hparameters []
    have hopen : step number .outside (Written.functionOpening name parameters) =
        ([], .function number name parameters []) := by
      simp only [step, hread]
      rfl
    rw [Written.lines, List.cons_append, scanFrom_cons, hopen, List.append_assoc,
      List.singleton_append, scanFrom_function_body fun line hline ↦ (hbody line hline).2]
    have hnumber : number + 1 + (body.length : Int) + 1 = number + ((Written.functionOpening name
        parameters :: (body ++ [("\x7d" : Text)])).length : Int) := by
      simp only [List.length_cons, List.length_append, List.length_nil]
      omega
    rw [hnumber]
    rfl
  | shortFunction name parameters body =>
    obtain ⟨hname, hparameters, htrim, -⟩ := h
    simp only [Written.lines, List.singleton_append, scanFrom_cons,
      step_shortFunction hname hparameters htrim]
    rfl
  | template markup =>
    have hopen : step number .outside templateOpening = ([], .template number []) := by
      simp only [step, readLine_templateOpening]
      rfl
    rw [Written.lines, List.cons_append, scanFrom_cons, hopen, List.append_assoc,
      List.singleton_append, scanFrom_template_markup fun line hline ↦ (h line hline).2]
    have hnumber : number + 1 + (markup.length : Int) + 1 =
        number + ((templateOpening :: (markup ++ [templateClosing])).length : Int) := by
      simp only [List.length_cons, List.length_append, List.length_nil]
      omega
    rw [hnumber]
    rfl
  | componentName name tail =>
    simp only [Written.lines, List.singleton_append, scanFrom_cons, step,
      readLine_componentName h.1 h.2.1]
    rfl
  | idle line =>
    simp only [Written.lines, List.singleton_append, scanFrom_cons, step, readLine_idle h.2]
    rfl

/-! ## Scanning a whole source -/

def Written.token? (line : Nat) (w : Written) : Option Token := w.declaration?.map fun d ↦ ⟨line, d⟩

theorem tokensOf_append (first second : List Event) :
    tokensOf (first ++ second) = tokensOf first ++ tokensOf second := List.filterMap_append

theorem tokensOf_events (line : Nat) (w : Written) :
    tokensOf (w.events line) = (w.token? line).toList := by
  rw [Written.events, Written.token?]
  cases w.declaration? <;> rfl

theorem tokensOf_scanFrom_written (h : ∀ w ∈ ws, w.WellFormed) (number : Nat) :
    tokensOf (scanFrom number .outside (ws.flatMap Written.lines)) =
      (placed number ws).filterMap fun (line, w) ↦ w.token? line := by
  induction ws generalizing number with
  | nil => rfl
  | cons w ws ih =>
    have hrest := ih (fun v hv ↦ h v (List.mem_cons_of_mem _ hv)) (number + w.lines.length)
    rw [List.flatMap_cons, scanFrom_written (h w List.mem_cons_self), tokensOf_append,
      tokensOf_events, placed, List.filterMap_cons]
    rw [Int.natCast_add] at hrest
    rw [hrest]
    cases htoken : w.token? number <;> simp [htoken]

theorem notMem_lineFeed_functionOpening {name parameters : Text} (hname : Text.IsName name)
    (hparameters : Written.ParametersFit parameters) :
    '\n' ∉ Written.functionOpening name parameters := by
  simp [Written.functionOpening, hname.notMem_lineFeed, hparameters.2.2]

theorem notMem_lineFeed_of_mem_lines (h : w.WellFormed) : ∀ line ∈ w.lines, '\n' ∉ line := by
  cases w with
  | imported name path => simp [Written.lines, h.1.notMem_lineFeed, h.2.2.2]
  | reactive name expression => simp [Written.lines, h.1.notMem_lineFeed, h.2.2.2]
  | computed name expression => simp [Written.lines, h.1.notMem_lineFeed, h.2.1.2.2]
  | function name parameters body =>
    intro line hline
    rcases List.mem_cons.mp hline with rfl | hline
    · exact notMem_lineFeed_functionOpening h.1 h.2.1
    · rcases List.mem_append.mp hline with hbody | hclosing
      · exact (h.2.2 line hbody).1
      · rw [List.mem_singleton.mp hclosing]
        decide
  | shortFunction name parameters body =>
    simp [Written.lines, notMem_lineFeed_functionOpening h.1 h.2.1, h.2.2.2]
  | template markup =>
    intro line hline
    rcases List.mem_cons.mp hline with rfl | hline
    · decide
    · rcases List.mem_append.mp hline with hmarkup | hclosing
      · exact (h line hmarkup).1
      · rw [List.mem_singleton.mp hclosing]
        decide
  | componentName name tail => simp [Written.lines, h.1.notMem_lineFeed, h.2.2]
  | idle line => simpa [Written.lines] using h.1

theorem scan_unlines {ls : List Text} (h : ∀ l ∈ ls, '\n' ∉ l) (offset : Int) :
    scan offset (Text.unlines ls) = scanFrom (offset + 1) .outside ls := by
  cases ls with
  | nil => rfl
  | cons first rest => rw [scan, Text.lines_unlines (List.cons_ne_nil _ _) h]

theorem ofTokens_written (file : Text) (fields : FrontMatter) (ws : List (Nat × Written)) :
    Component.ofTokens file fields (ws.filterMap fun (line, w) ↦ w.token? line) =
      writtenComponent file fields ws := by
  induction ws using List.reverseRecOn with
  | nil => rfl
  | append_singleton ws placedAt ih =>
    obtain ⟨line, w⟩ := placedAt
    rw [List.filterMap_append, Component.ofTokens, List.foldl_append, ← Component.ofTokens, ih]
    cases w <;>
      simp [Written.token?, Written.declaration?, Component.declare, writtenComponent,
        Written.import?, Written.var?, Written.function?, Written.template?, Written.componentName?]

/-! ## Where declarations begin -/

theorem lines_at_placed {number line : Nat} (h : (line, w) ∈ placed number ws) :
    number ≤ line ∧ w.lines <+: (ws.flatMap Written.lines).drop (line - number) := by
  induction ws generalizing number with
  | nil => exact absurd h List.not_mem_nil
  | cons v ws ih =>
    rw [List.flatMap_cons]
    rcases List.mem_cons.mp h with hhere | hlater
    · obtain ⟨rfl, rfl⟩ := Prod.mk.inj hhere
      rw [Nat.sub_self, List.drop_zero]
      exact ⟨Nat.le_refl _, List.prefix_append _ _⟩
    · obtain ⟨hle, hlines⟩ := ih hlater
      refine ⟨Nat.le_trans (Nat.le_add_right _ _) hle, ?_⟩
      rw [show line - number = v.lines.length + (line - (number + v.lines.length)) by omega,
        List.drop_length_add_append]
      exact hlines

/-! ## The round trip -/

def headerFields (header : Option (List FrontMatter.WrittenField)) : FrontMatter :=
  (header.getD []).map FrontMatter.WrittenField.pair

/-- Whether a header can be written as it is: its fields can, and their keys are different. -/
def HeaderFits (header : Option (List FrontMatter.WrittenField)) : Prop :=
  (∀ f ∈ header.getD [], f.WellFormed) ∧
    ((header.getD []).map FrontMatter.WrittenField.key).Nodup

instance (header : Option (List FrontMatter.WrittenField)) : Decidable (HeaderFits header) :=
  inferInstanceAs (Decidable (_ ∧ _))

theorem isDelimiter_of_head {c : Char} (hblank : isBlank c = false) (hne : c ≠ '-') (t : Text) :
    FrontMatter.isDelimiter (c :: t) = false := by
  obtain ⟨u, hu⟩ := Text.trim_cons_of_not_isBlank hblank t
  rw [FrontMatter.isDelimiter, hu, beq_eq_false_iff_ne]
  intro heq
  exact hne (List.cons.inj (heq : c :: u = ['-', '-', '-'])).1

/-- No declaration begins with a line that could be taken for the opening of front matter. -/
theorem exists_first_line (h : w.WellFormed) :
    ∃ first rest, w.lines = first :: rest ∧ FrontMatter.isDelimiter first = false := by
  cases w with
  | imported name path =>
    exact ⟨_, _, rfl, isDelimiter_of_head (c := 'i') (by decide) (by decide) _⟩
  | reactive name expression =>
    exact ⟨_, _, rfl, isDelimiter_of_head (c := '$') (by decide) (by decide) _⟩
  | computed name expression =>
    exact ⟨_, _, rfl, isDelimiter_of_head (c := '$') (by decide) (by decide) _⟩
  | function name parameters body =>
    exact ⟨_, _, rfl, isDelimiter_of_head (c := '$') (by decide) (by decide) _⟩
  | shortFunction name parameters body =>
    exact ⟨_, _, rfl, isDelimiter_of_head (c := '$') (by decide) (by decide) _⟩
  | template markup => exact ⟨_, _, rfl, by decide⟩
  | componentName name tail =>
    exact ⟨_, _, rfl, isDelimiter_of_head (c := 'e') (by decide) (by decide) _⟩
  | idle line =>
    refine ⟨_, _, rfl, ?_⟩
    rw [FrontMatter.isDelimiter, beq_eq_false_iff_ne]
    rcases h.2 with hblank | hremark
    · rw [Text.trim_of_isBlank hblank]
      decide
    · intro heq
      rw [heq] at hremark
      exact absurd hremark (by decide)

theorem notMem_lineFeed_of_mem_flatMap (h : ∀ w ∈ ws, w.WellFormed) :
    ∀ line ∈ ws.flatMap Written.lines, '\n' ∉ line := by
  intro line hline
  obtain ⟨w, hw, hmem⟩ := List.mem_flatMap.mp hline
  exact notMem_lineFeed_of_mem_lines (h w hw) line hmem

/-- Splitting a written source finds the fields, the body and the number of lines before it. -/
theorem extract_written {header : Option (List FrontMatter.WrittenField)}
    (hheader : HeaderFits header) (hws : ∀ w ∈ ws, w.WellFormed) :
    let parts := FrontMatter.extract (Text.unlines (sourceLines header ws))
    parts.fields = headerFields header ∧
      parts.body = Text.unlines (ws.flatMap Written.lines) ∧
      parts.bodyOffset = (headerLines header).length := by
  have hbody := notMem_lineFeed_of_mem_flatMap hws
  cases header with
  | some fields =>
    have hlines : Text.lines (Text.unlines (sourceLines (some fields) ws)) =
        FrontMatter.blockLines fields ++ ws.flatMap Written.lines := by
      refine Text.lines_unlines (by simp [sourceLines, headerLines, FrontMatter.blockLines]) ?_
      intro line hline
      rcases List.mem_append.mp hline with hblock | hline
      · exact FrontMatter.notMem_lineFeed_of_mem_blockLines hheader.1 line hblock
      · exact hbody line hline
    have hextract := FrontMatter.extract_of_lines hlines hheader.1 hheader.2
    simpa [headerFields, headerLines, FrontMatter.blockLines] using hextract
  | none =>
    cases ws with
    | nil => exact ⟨rfl, rfl, rfl⟩
    | cons w ws =>
      obtain ⟨first, rest, hfirst, hdelimiter⟩ := exists_first_line (hws w List.mem_cons_self)
      have hlines : Text.lines (Text.unlines (sourceLines none (w :: ws))) =
          first :: (rest ++ ws.flatMap Written.lines) := by
        rw [sourceLines, headerLines, Option.map_none, Option.getD_none, List.nil_append,
          Text.lines_unlines (by simp [hfirst]) hbody, List.flatMap_cons, hfirst, List.cons_append]
      exact FrontMatter.extract_of_no_block hlines hdelimiter

/-- **What is written is what is read.** A source with front matter and declarations in any order,
with blank lines and remarks between them, is read as the component that was written, and every
declaration has the number of the line on which it begins. -/
theorem ofSource_written (file : Text) {header : Option (List FrontMatter.WrittenField)}
    {ws : List Written} (hheader : HeaderFits header) (hws : ∀ w ∈ ws, w.WellFormed) :
    Component.ofSource file (Text.unlines (sourceLines header ws)) =
        writtenComponent file (headerFields header) (placed ((headerLines header).length + 1) ws) ∧
      ∀ line w, (line, w) ∈ placed ((headerLines header).length + 1) ws →
        w.lines <+: (sourceLines header ws).drop (line - 1) := by
  constructor
  · obtain ⟨hfields, hbody, hoffset⟩ := extract_written hheader hws
    have htokens := tokensOf_scanFrom_written hws ((headerLines header).length + 1)
    rw [Int.natCast_add, Int.natCast_one] at htokens
    rw [Component.ofSource, hfields, hbody, hoffset,
      scan_unlines (notMem_lineFeed_of_mem_flatMap hws), htokens, ofTokens_written]
  · intro line w hplaced
    obtain ⟨hle, hlines⟩ := lines_at_placed hplaced
    rw [sourceLines, show line - 1 =
      (headerLines header).length + (line - ((headerLines header).length + 1)) by omega,
      List.drop_length_add_append]
    exact hlines

/-- The round trip of a source with every kind of line, in which each block holds a line that would
be a declaration outside of it. -/
theorem ofSource_written_page :
    let header : List FrontMatter.WrittenField :=
      [⟨"title", "It's \"home\" ", .double⟩, ⟨"route", "/", .bare⟩]
    let ws : List Written :=
      [.idle "  // imports", .imported "Card" "./my card.tsx", .idle "",
        .reactive "n" "signal('n', (x) => 0)", .computed "m" "> $n",
        .function "f" "a => b" ["import X from \"x\"", " \x7d;"],
        .shortFunction "g" "" "h(\x7b \x7d)",
        .template ["$x! = 1", "</template> <!-- -->"], .componentName "Home" "() \x7b"]
    (HeaderFits (some header) ∧ ∀ w ∈ ws, w.WellFormed) ∧
      Component.ofSource "p.mtm" (Text.unlines (sourceLines (some header) ws)) =
        { file := "p.mtm"
          fields := [("title", "It's \"home\" "), ("route", "/")]
          name := "Home"
          imports := [⟨6, "Card", "./my card.tsx", none⟩]
          vars := [⟨8, "n", true, "signal('n', (x) => 0)"⟩, ⟨9, "m", false, "> $n"⟩]
          functions :=
            [⟨10, "f", "a => b", "import X from \"x\"\n \x7d;"⟩, ⟨14, "g", "", "h(\x7b \x7d)"⟩]
          template := some ⟨15, "$x! = 1\n</template> <!-- -->"⟩ } := by
  refine ⟨by decide +kernel, ?_⟩
  exact (ofSource_written "p.mtm" (by decide +kernel) (by decide +kernel)).1

/-- A line feed in the parameters of a function or in the path of an import splits the line they are
written on, and the declaration is lost. -/
theorem line_feed_loses_declaration :
    let w := Written.function "f" "a,\n  b" ["  return a"]
    let v := Written.imported "A" "a\nb"
    (Text.IsName "f" ∧ Text.trim "a,\n  b" = ("a,\n  b" : Text) ∧ ')' ∉ ("a,\n  b" : Text) ∧
      Text.trim "  return a" ≠ ['\x7d'] ∧
      Component.ofSource "p.mtm" (Text.unlines (sourceLines none [w])) ≠
        writtenComponent "p.mtm" [] (placed 1 [w])) ∧
    (Text.IsName "A" ∧ ("a\nb" : Text) ≠ [] ∧ (∀ c ∈ ("a\nb" : Text), c ≠ '"' ∧ c ≠ '\'') ∧
      Component.ofSource "p.mtm" (Text.unlines (sourceLines none [v])) ≠
        writtenComponent "p.mtm" [] (placed 1 [v])) := by
  decide +kernel

end Source

end PageCompiler
