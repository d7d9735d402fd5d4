import Mathlib.Computability.Language
import PageCompiler.Proofs.SourceNames
import PageCompiler.Proofs.SourceRoundTrip

/-!
# Where declarations stand

Diagnostics point at the line of a declaration, counted in the whole source. The count is put
together from two parts: the lines before the body, of which there are as many as the front matter
says, and a number that goes up by one with each line that is scanned, while a block holds on to the
number of the line that opened it.

The shapes of lines are languages here, products of their parts from left to right, which know
nothing of the readers. For every source and whatever is found for its imports, the tokens stand on
different lines, in their order, behind the front matter and within the source, and the line that a
token points at has the shape of its declaration, with the same name in it
(`Source.tokens_on_opening_lines`).

Scanning keeps an invariant: a block that is open began on a line that opens it. A step either
declares one thing, on the line where the block began or else on the present one, and is outside
then, or it declares nothing and the block began no earlier than before (`Source.advances_step`).
-/

namespace PageCompiler

namespace Source

/-! ## Shapes of lines -/

namespace Shape

def blanks : Language Char := {t | ∀ c ∈ t, isBlank c = true}

def someBlanks : Language Char := {t | t ≠ [] ∧ ∀ c ∈ t, isBlank c = true}

def mark (t : Text) : Language Char := {t}

/-- A fixed text that is a name. -/
def named (name : Text) : Language Char := {t | t = name ∧ Text.IsName t}

/-- A single quote character of either kind. -/
def quoteMark : Language Char := {t | ∃ c, isQuote c = true ∧ t = [c]}

def anything : Language Char := Set.univ

end Shape

open Shape

/-- The lines that open a declaration. They do not depend on the file that an import was found to
stand for, nor on what a function or a template holds. -/
def Declaration.openings : Declaration → Language Char
  | .imported name path _ =>
    [blanks, mark "import", someBlanks, named name, someBlanks, mark "from", someBlanks, quoteMark,
      {t | t = path ∧ t ≠ [] ∧ ∀ c ∈ t, isQuote c = false}, quoteMark, blanks, 1 + mark ";",
      blanks].prod
  | .reactive name expression =>
    [blanks, mark "$", named name, mark "!", blanks, mark "=",
      {t | t ≠ [] ∧ Text.trim t = expression}].prod
  | .computed name expression =>
    [blanks, mark "$", named name, blanks, mark "=",
      {t | t ≠ [] ∧ Text.trim t = expression ∧ ¬ ("=>" : Text) <:+: t}].prod
  | .function name parameters _ =>
    [blanks, mark "$", named name, blanks, mark "=", blanks, mark "(",
      {t | ')' ∉ t ∧ Text.trim t = parameters}, mark ")", blanks, mark "=>", blanks,
      mark "\x7b", anything].prod
  | .template _ => [blanks, mark "<template>", anything].prod
  | .componentName name =>
    [anything, mark "export", someBlanks, mark "default", someBlanks, mark "function", someBlanks,
      named name, {t | Text.atWordEnd t = true}].prod

/-! ## Reading a shape

Each reader takes the part of a line that one factor of a shape stands for. -/

section Factors

variable {L : Language Char} {Ls : List (Language Char)} {t rest : Text}

theorem append_mem_prod {u : Text} (ht : t ∈ L) (hu : u ∈ Ls.prod) : t ++ u ∈ (L :: Ls).prod := by
  rw [List.prod_cons]
  exact Language.append_mem_mul ht hu

theorem mem_prod_singleton (h : t ∈ L) : t ∈ [L].prod := by rwa [List.prod_singleton]

theorem mem_prod_of_trimLeft (h : Text.trimLeft t ∈ Ls.prod) : t ∈ (blanks :: Ls).prod := by
  obtain ⟨front, hfront, hblank⟩ := Text.exists_append_trimLeft t
  rw [hfront]
  exact append_mem_prod hblank h

theorem mem_prod_of_blanks? (hread : Text.blanks? t = some rest) (h : rest ∈ Ls.prod) :
    t ∈ (someBlanks :: Ls).prod := by
  cases t with
  | nil => cases hread
  | cons c cs =>
    rw [Text.blanks?] at hread
    split_ifs at hread with hc
    obtain rfl := Option.some.inj hread
    obtain ⟨front, hfront, hblank⟩ := Text.exists_append_trimLeft cs
    rw [hfront, ← List.cons_append]
    exact append_mem_prod ⟨List.cons_ne_nil c front, List.forall_mem_cons.mpr ⟨hc, hblank⟩⟩ h

theorem mem_prod_of_after? {start : Text} (hread : Text.after? start t = some rest)
    (h : rest ∈ Ls.prod) : t ∈ (mark start :: Ls).prod := by
  rw [Text.after?_eq_some_iff.mp hread]
  exact append_mem_prod rfl h

theorem mem_prod_of_run? {p : Char → Bool} {run : Text} (hread : Text.run? p t = some (run, rest))
    (hrun : run ∈ L) (h : rest ∈ Ls.prod) : t ∈ (L :: Ls).prod := by
  rw [Text.append_of_run? hread]
  exact append_mem_prod hrun h

theorem mem_prod_of_word? {name : Text} (hread : Text.word? t = some (name, rest))
    (h : rest ∈ Ls.prod) : t ∈ (named name :: Ls).prod :=
  mem_prod_of_run? hread ⟨rfl, .of_word? hread⟩ h

theorem mem_prod_of_quote {c : Char} (hread : Text.char? isQuote t = some (c, rest))
    (h : rest ∈ Ls.prod) : t ∈ (quoteMark :: Ls).prod := by
  obtain ⟨rfl, hc⟩ := Text.char?_eq_some_iff.mp hread
  have hmark : [c] ∈ quoteMark := ⟨c, hc, rfl⟩
  exact append_mem_prod hmark h

theorem mem_prod_of_upTo? {stop : Char} {front : Text}
    (hread : Text.upTo? stop t = some (front, rest)) (hfront : front ∈ L) (h : rest ∈ Ls.prod) :
    t ∈ (L :: mark [stop] :: Ls).prod := by
  obtain ⟨rfl, -⟩ := Text.upTo?_eq_some_iff.mp hread
  exact append_mem_prod hfront (append_mem_prod (t := [stop]) rfl h)

theorem mem_prod_of_getD_after? {start : Text} (h : (Text.after? start t).getD t ∈ Ls.prod) :
    t ∈ ((1 + mark start) :: Ls).prod := by
  cases hread : Text.after? start t with
  | none =>
    rw [hread, Option.getD_none] at h
    exact append_mem_prod (t := []) (Or.inl rfl) h
  | some rest =>
    rw [hread, Option.getD_some] at h
    rw [Text.after?_eq_some_iff.mp hread]
    exact append_mem_prod (Or.inr rfl) h

end Factors

section Readers

variable {line name : Text}

theorem mem_openings_of_import? {path : Text} {resolved : Option Text}
    (h : import? line = some (name, path)) :
    line ∈ (Declaration.imported name path resolved).openings := by
  simp only [import?, Option.bind_eq_bind, Option.bind_eq_some_iff] at h
  obtain ⟨_, himport, _, hblanks₁, ⟨word, _⟩, hword, _, hblanks₂, _, hfrom, _, hblanks₃, ⟨_, _⟩,
    hquote₁, ⟨inside, _⟩, hpath, ⟨_, _⟩, hquote₂, hsome⟩ := h
  split_ifs at hsome with hblank
  obtain ⟨rfl, rfl⟩ := Prod.mk.inj (Option.some.inj hsome)
  have hinside : ∀ c ∈ inside, isQuote c = false := fun c hc ↦ by
    simpa using Text.forall_of_run? hpath c hc
  have hne : inside ≠ [] := Text.ne_nil_of_run? hpath
  apply mem_prod_of_trimLeft
  apply mem_prod_of_after? himport
  apply mem_prod_of_blanks? hblanks₁
  apply mem_prod_of_word? hword
  apply mem_prod_of_blanks? hblanks₂
  apply mem_prod_of_after? hfrom
  apply mem_prod_of_blanks? hblanks₃
  apply mem_prod_of_quote hquote₁
  refine mem_prod_of_run? hpath ?_ ?_
  · exact ⟨rfl, hne, hinside⟩
  apply mem_prod_of_quote hquote₂
  apply mem_prod_of_trimLeft
  apply mem_prod_of_getD_after?
  exact mem_prod_singleton (List.all_eq_true.mp hblank)

theorem mem_prod_of_declared? {Ls : List (Language Char)} {rest : Text}
    (hread : declared? line = some (name, rest)) (h : rest ∈ Ls.prod) :
    line ∈ (blanks :: mark "$" :: named name :: Ls).prod := by
  simp only [declared?, Option.bind_eq_bind, Option.bind_eq_some_iff] at hread
  obtain ⟨_, hdollar, hword⟩ := hread
  apply mem_prod_of_trimLeft
  apply mem_prod_of_after? hdollar
  exact mem_prod_of_word? hword h

theorem mem_prod_of_assigned? {L : Language Char} {rest value : Text}
    (hread : assigned? rest = some value) (h : value ≠ [] → value ∈ L) :
    rest ∈ [blanks, mark "=", L].prod := by
  simp only [assigned?, Option.bind_eq_bind, Option.bind_eq_some_iff] at hread
  obtain ⟨_, hequals, hsome⟩ := hread
  split_ifs at hsome with hempty
  obtain rfl := Option.some.inj hsome
  apply mem_prod_of_trimLeft
  apply mem_prod_of_after? hequals
  exact mem_prod_singleton (h fun heq ↦ hempty (List.isEmpty_iff.mpr heq))

theorem mem_openings_of_reactive? {expression : Text}
    (h : reactive? line = some (name, expression)) :
    line ∈ (Declaration.reactive name expression).openings := by
  simp only [reactive?, Option.bind_eq_bind, Option.bind_eq_some_iff] at h
  obtain ⟨⟨word, _⟩, hdeclared, _, hsign, value, hvalue, hsome⟩ := h
  obtain ⟨rfl, rfl⟩ := Prod.mk.inj (Option.some.inj hsome)
  apply mem_prod_of_declared? hdeclared
  apply mem_prod_of_after? hsign
  exact mem_prod_of_assigned? hvalue fun hne ↦ ⟨hne, rfl⟩

theorem mem_openings_of_computed? {expression : Text}
    (h : computed? line = some (name, expression)) :
    line ∈ (Declaration.computed name expression).openings := by
  simp only [computed?, Option.bind_eq_bind, Option.bind_eq_some_iff] at h
  obtain ⟨⟨word, _⟩, hdeclared, value, hvalue, hsome⟩ := h
  split_ifs at hsome with harrow
  obtain ⟨rfl, rfl⟩ := Prod.mk.inj (Option.some.inj hsome)
  apply mem_prod_of_declared? hdeclared
  exact mem_prod_of_assigned? hvalue fun hne ↦ ⟨hne, rfl, fun h ↦ harrow (Text.contains_iff.mpr h)⟩

theorem mem_openings_of_function? {parameters rest body : Text}
    (h : function? line = some (name, parameters, rest)) :
    line ∈ (Declaration.function name parameters body).openings := by
  simp only [function?, Option.bind_eq_bind, Option.bind_eq_some_iff] at h
  obtain ⟨⟨word, _⟩, hdeclared, _, hequals, _, hopen, ⟨inside, _⟩, hupTo, _, harrow, _, hbrace,
    hsome⟩ := h
  obtain ⟨rfl, heq⟩ := Prod.mk.inj (Option.some.inj hsome)
  obtain ⟨rfl, -⟩ := Prod.mk.inj heq
  apply mem_prod_of_declared? hdeclared
  apply mem_prod_of_trimLeft
  apply mem_prod_of_after? hequals
  apply mem_prod_of_trimLeft
  apply mem_prod_of_after? hopen
  refine mem_prod_of_upTo? hupTo ?_ ?_
  · exact ⟨(Text.upTo?_eq_some_iff.mp hupTo).2, rfl⟩
  apply mem_prod_of_trimLeft
  apply mem_prod_of_after? harrow
  apply mem_prod_of_trimLeft
  apply mem_prod_of_after? hbrace
  exact mem_prod_singleton trivial

theorem after?_of_readLine_template {rest : Text} (h : readLine line = .template rest) :
    Text.after? templateOpening (Text.trim line) = some rest := by
  unfold readLine at h
  dsimp only at h
  split_ifs at h
  split at h
  · cases h
  split at h
  · cases h
  split at h
  · cases h
  split at h
  · cases h
  split at h
  · obtain rfl := LineForm.template.inj h
    assumption
  · split at h <;> cases h

theorem mem_openings_of_template {rest markup : Text} (h : readLine line = .template rest) :
    line ∈ (Declaration.template markup).openings := by
  obtain ⟨front, last, hline, hfront, -⟩ := Text.exists_trim_around line
  rw [hline, Text.after?_eq_some_iff.mp (after?_of_readLine_template h), List.append_assoc,
    List.append_assoc]
  have hmark : templateOpening ∈ mark "<template>" := rfl
  apply append_mem_prod (L := blanks) hfront
  apply append_mem_prod hmark
  exact mem_prod_singleton trivial

theorem mem_openings_of_componentName (h : Text.find? readComponentName line = some name) :
    line ∈ (Declaration.componentName name).openings := by
  obtain ⟨t, _, ⟨front, rfl⟩, hread⟩ := Text.exists_of_find? h
  simp only [readComponentName, Option.bind_eq_bind, Option.bind_eq_some_iff] at hread
  obtain ⟨_, hexport, _, hblanks₁, _, hdefault, _, hblanks₂, _, hfunction, _, hblanks₃,
    hword⟩ := hread
  apply append_mem_prod (L := anything) trivial
  apply mem_prod_of_after? hexport
  apply mem_prod_of_blanks? hblanks₁
  apply mem_prod_of_after? hdefault
  apply mem_prod_of_blanks? hblanks₂
  apply mem_prod_of_after? hfunction
  apply mem_prod_of_blanks? hblanks₃
  apply mem_prod_of_word? hword
  exact mem_prod_singleton (Text.atWordEnd_of_word? hword)

end Readers

/-! ## Scanning -/

/-- Whether a line was read as the beginning of a declaration. What a function or a template holds
comes later, and so does the file of an import. -/
inductive Begins (line : Text) : Declaration → Prop
  | imported {name path : Text} (h : readLine line = .imported name path) :
    Begins line (.imported name path none)
  | reactive {name expression : Text} (h : readLine line = .reactive name expression) :
    Begins line (.reactive name expression)
  | computed {name expression : Text} (h : readLine line = .computed name expression) :
    Begins line (.computed name expression)
  | function {name parameters rest : Text} (body : Text)
    (h : readLine line = .function name parameters rest) :
    Begins line (.function name parameters body)
  | template {rest : Text} (markup : Text) (h : readLine line = .template rest) :
    Begins line (.template markup)
  | componentName {name : Text} (h : readLine line = .componentName name) :
    Begins line (.componentName name)

theorem Begins.mem_openings {line : Text} {d : Declaration} (h : Begins line d) :
    line ∈ d.openings := by
  have hsaid {form : LineForm} (hform : readLine line = form) : form.Says line :=
    hform ▸ says_readLine line
  cases h with
  | imported h => exact mem_openings_of_import? (hsaid h)
  | reactive h => exact mem_openings_of_reactive? (hsaid h)
  | computed h => exact mem_openings_of_computed? (hsaid h)
  | function body h => exact mem_openings_of_function? (hsaid h)
  | template markup h => exact mem_openings_of_template h
  | componentName h => exact mem_openings_of_componentName (hsaid h)

/-- Whether a token stands on a line that begins its declaration. Lines are counted from one. -/
def Token.StandsIn (ls : List Text) (t : Token) : Prop :=
  ∃ (n : Nat) (line : Text), t.line = n + 1 ∧ ls[n]? = some line ∧ Begins line t.declaration

namespace Block

/-- The line on which a block began, or else the present line. -/
def start (number : Int) : Block → Int
  | .outside => number
  | .function line _ _ _ => line
  | .template line _ => line

/-- Whether a block began on a line that begins it, whatever it will hold. -/
def StandsIn (ls : List Text) : Block → Prop
  | .outside => True
  | .function line name parameters _ =>
    ∀ body, Token.StandsIn ls ⟨line, .function name parameters body⟩
  | .template line _ => ∀ markup, Token.StandsIn ls ⟨line, .template markup⟩

end Block

section Steps

variable {ls : List Text} {number : Int} {n : Nat} {line : Text} {block : Block}

/-- What a step does at a line: it declares one thing, where the block began, and is outside then,
or it declares nothing and the block it is in has not begun any earlier than before. -/
inductive Advances (ls : List Text) (number : Int) (block : Block) : List Token → Block → Prop
  | declares {t : Token} (stands : t.StandsIn ls) (line_eq : t.line = block.start number) :
    Advances ls number block [t] .outside
  | quiet {next : Block} (stands : next.StandsIn ls)
    (low : block.start number ≤ next.start (number + 1))
    (high : next.start (number + 1) ≤ number + 1) : Advances ls number block [] next

theorem advances_step (hnumber : number = n + 1) (hline : ls[n]? = some line)
    (hblock : block.StandsIn ls) (hstart : block.start number ≤ number) :
    Advances ls number block (tokensOf (step number block line).1) (step number block line).2 := by
  have hnext : number ≤ number + 1 := Int.le_add_one le_rfl
  have hbegins {d : Declaration} (h : Begins line d) : Token.StandsIn ls ⟨number, d⟩ :=
    ⟨n, line, hnumber, hline, h⟩
  unfold Source.step
  split
  -- A block that is open ends, or it goes on from where it began.
  · split_ifs
    · exact .declares (hblock _) rfl
    · exact .quiet hblock le_rfl (hstart.trans hnext)
  · split_ifs
    · exact .declares (hblock _) rfl
    · exact .quiet hblock le_rfl (hstart.trans hnext)
  -- Outside of all blocks what counts is the present line.
  · have hquiet : Advances ls number .outside [] .outside := .quiet trivial hnext le_rfl
    split <;> rename_i hform
    · exact hquiet
    · exact .declares (hbegins (.imported hform)) rfl
    · exact .declares (hbegins (.reactive hform)) rfl
    · exact .declares (hbegins (.computed hform)) rfl
    · exact .declares (hbegins (.componentName hform)) rfl
    · exact hquiet
    · split
      · exact .declares (hbegins (.function _ hform)) rfl
      · exact .quiet (fun body ↦ hbegins (.function body hform)) le_rfl hnext
    · split_ifs
      · exact .declares (hbegins (.template _ hform)) rfl
      · exact .quiet (fun markup ↦ hbegins (.template markup hform)) le_rfl hnext

/-- Whether tokens stand on different lines in their order, from a line on, and each of them on a
line that begins its declaration. -/
structure InOrder (ls : List Text) (first : Int) (tokens : List Token) : Prop where
  /-- Every token stands on a later line than those before it. -/
  sorted : tokens.Pairwise fun t u ↦ t.line < u.line
  /-- No token stands before the first line. -/
  low : ∀ t ∈ tokens, first ≤ t.line
  /-- Every token stands where its declaration begins. -/
  stands : ∀ t ∈ tokens, t.StandsIn ls

theorem Block.StandsIn.finish (h : block.StandsIn ls) :
    InOrder ls (block.start number) (tokensOf block.finish) := by
  have hone {t : Token} (ht : t.StandsIn ls) : InOrder ls t.line [t] :=
    ⟨List.pairwise_singleton _ _, by simp, by simpa using ht⟩
  cases block with
  | outside => exact ⟨List.Pairwise.nil, by simp [tokensOf, Block.finish],
      by simp [tokensOf, Block.finish]⟩
  | function line name parameters body => exact hone (h _)
  | template line markup => exact hone (h _)

/-- The tokens of the lines behind the first `n` stand in order, from the line on which the block
began that the first of these lines is in. -/
theorem inOrder_scanFrom {rest : List Text} (hrest : rest = ls.drop n) (hnumber : number = n + 1)
    (hblock : block.StandsIn ls) (hstart : block.start number ≤ number) :
    InOrder ls (block.start number) (tokensOf (scanFrom number block rest)) := by
  induction rest generalizing number n block with
  | nil => exact hblock.finish
  | cons line rest ih =>
    have hline : ls[n]? = some line := by
      have hhead := congrArg List.head? hrest
      rw [List.head?_drop] at hhead
      exact hhead.symm
    have htail : rest = ls.drop (n + 1) := by
      rw [← List.tail_drop, ← hrest, List.tail_cons]
    have hsucc : number + 1 = (n + 1 : Nat) + 1 := by
      rw [hnumber, Int.natCast_add_one]
    rw [scanFrom_cons, tokensOf_append]
    have hstep := advances_step hnumber hline hblock hstart
    generalize tokensOf (step number block line).1 = tokens,
      (step number block line).2 = next at hstep ⊢
    cases hstep with
    | declares hstands hat =>
      have houtside : Block.outside.StandsIn ls := trivial
      obtain ⟨hsorted, hlow, hall⟩ := ih htail hsucc houtside le_rfl
      -- The lines that follow are behind the one where the block began.
      have hlater : ∀ u ∈ tokensOf (scanFrom (number + 1) .outside rest),
          block.start number < u.line := fun u hu ↦
        lt_of_lt_of_le (Int.lt_add_one_of_le hstart) (hlow u hu)
      refine ⟨List.pairwise_cons.mpr ⟨fun u hu ↦ ?_, hsorted⟩,
        List.forall_mem_cons.mpr ⟨hat.ge, fun u hu ↦ (hlater u hu).le⟩,
        List.forall_mem_cons.mpr ⟨hstands, hall⟩⟩
      rw [hat]
      exact hlater u hu
    | quiet hstands hle hhigh =>
      obtain ⟨hsorted, hlow, hall⟩ := ih htail hsucc hstands hhigh
      exact ⟨hsorted, fun t ht ↦ hle.trans (hlow t ht), hall⟩

end Steps

/-! ## Looking for the imports -/

section Located

variable {E : Type} {file : Text} {events : List Event}

/-- Where a token stands, and the lines that open its declaration. -/
def Token.place (t : Token) : Int × Language Char := (t.line, t.declaration.openings)

theorem map_place_of_locate {locator : Locator E} {tokens : List Token}
    (h : (locate file locator events).tokens = .ok tokens) :
    tokens.map Token.place = (tokensOf events).map Token.place := by
  have hpairs := forall₂_of_locate h
  generalize tokensOf events = before at hpairs
  clear h
  induction hpairs with
  | nil => rfl
  | cons hfirst _ ih =>
    rw [List.map_cons, List.map_cons]
    cases hfirst <;> exact congrArg (_ :: ·) ih

theorem tokens_locate_noLookup {ls : List Text} (h : ∀ t ∈ tokensOf events, t.StandsIn ls) :
    (locate file (noLookup : Locator E) events).tokens = .ok (tokensOf events) := by
  fun_induction locate file (noLookup : Locator E) events with
  | case1 => rfl
  | case2 line name path _ rest lookup e hfound => cases hfound
  | case3 line name path old rest lookup resolved hfound scanned =>
    rename_i ih
    obtain ⟨⟨_, _, -, -, hbegins⟩, hrest⟩ := List.forall_mem_cons.mp h
    obtain rfl : none = resolved := Except.ok.inj hfound
    cases hbegins
    exact congrArg (Except.map _) (ih hrest)
  | case4 t rest hother scanned =>
    rename_i ih
    exact congrArg (Except.map _) (ih (List.forall_mem_cons.mp h).2)
  | case5 event rest _ hother scanned =>
    rename_i ih
    cases event with
    | token t => exact absurd rfl (hother t)
    | _ => exact ih h

theorem InOrder.of_locate {locator : Locator E} {ls : List Text} {first : Int}
    {tokens : List Token} (horder : InOrder ls first (tokensOf events))
    (h : (locate file locator events).tokens = .ok tokens) :
    tokens.Pairwise (fun t u ↦ t.line < u.line) ∧
      ∀ t ∈ tokens, first ≤ t.line ∧ t.line ≤ ls.length ∧
        ∃ line, ls[(t.line - 1).toNat]? = some line ∧ line ∈ t.declaration.openings := by
  have hplaces := map_place_of_locate h
  constructor
  · have hsorted : ((tokensOf events).map Token.place).Pairwise fun p q ↦ p.1 < q.1 :=
      List.pairwise_map.mpr horder.sorted
    rw [← hplaces] at hsorted
    exact (List.pairwise_map (f := Token.place)).mp hsorted
  · intro t ht
    have hplace : t.place ∈ (tokensOf events).map Token.place :=
      hplaces ▸ List.mem_map_of_mem ht
    obtain ⟨u, hu, heq⟩ := List.mem_map.mp hplace
    obtain ⟨hline, hopenings⟩ := Prod.mk.inj heq
    obtain ⟨n, line, hn, hget, hbegins⟩ := horder.stands u hu
    have hlength : n < ls.length := (List.getElem?_eq_some_iff.mp hget).1
    rw [← hline, ← hopenings]
    refine ⟨horder.low u hu, ?_, line, ?_, hbegins.mem_openings⟩
    · rw [hn]
      exact Int.add_one_le_of_lt (Int.ofNat_lt.mpr hlength)
    · rw [hn, Int.add_sub_cancel, Int.toNat_natCast]
      exact hget

end Located

/-! ## Whole sources -/

/-- The body is made of the lines behind the first `bodyOffset`, whether there is a block of
metadata, or none, or one that is never closed. -/
theorem body_extract (source : Text) : (FrontMatter.extract source).body =
    Text.unlines ((Text.lines source).drop (FrontMatter.extract source).bodyOffset) := by
  rw [FrontMatter.extract]
  split
  · next hlines => exact absurd hlines (Text.lines_ne_nil source)
  · next first rest hlines =>
    split_ifs
    · exact (Text.unlines_lines source).symm
    · split
      · rw [hlines]
        rfl
      · next closing body hdrop =>
        have hrest := List.takeWhile_append_dropWhile
          (p := fun line ↦ !FrontMatter.isDelimiter line) (l := rest)
        rw [hdrop] at hrest
        dsimp only
        rw [hlines, List.drop_succ_cons]
        generalize rest.takeWhile (fun line ↦ !FrontMatter.isDelimiter line) = block at hrest ⊢
        rw [← hrest, List.drop_length_add_append]
        rfl

theorem lines_body_extract (source : Text) :
    Text.lines (FrontMatter.extract source).body =
      if (FrontMatter.extract source).bodyOffset < (Text.lines source).length then
        (Text.lines source).drop (FrontMatter.extract source).bodyOffset
      else [[]] := by
  rw [body_extract source]
  split_ifs with hlt
  · have hne : (Text.lines source).drop (FrontMatter.extract source).bodyOffset ≠ [] := by
      rwa [Ne, List.drop_eq_nil_iff, not_le]
    exact Text.lines_unlines hne fun l hl ↦
      Text.notMem_of_mem_lines source l (List.mem_of_mem_drop hl)
  · rw [List.drop_eq_nil_of_le (not_lt.mp hlt)]
    rfl

/-- The tokens of a source stand in its lines, behind the front matter. -/
theorem inOrder_scan_extract (source : Text) :
    let parts := FrontMatter.extract source
    InOrder (Text.lines source) (parts.bodyOffset + 1)
      (tokensOf (scan parts.bodyOffset parts.body)) := by
  intro parts
  have hfeed : ∀ l ∈ (Text.lines source).drop parts.bodyOffset, '\n' ∉ l := fun l hl ↦
    Text.notMem_of_mem_lines source l (List.mem_of_mem_drop hl)
  have houtside : Block.outside.StandsIn (Text.lines source) := trivial
  rw [body_extract source, scan_unlines hfeed]
  exact inOrder_scanFrom rfl rfl houtside le_rfl

/-- Reading a source gives nothing but the problem with an import, or it makes the component from
the tokens that it gives. -/
theorem read_cases {E : Type} (file : Text) (locator : Locator E) (parts : FrontMatter.Extracted) :
    let reading := Component.read file locator parts
    (reading.tokens = [] ∧ ∃ e, reading.component = .error e) ∨
      ((tokenize file parts.bodyOffset locator parts.body).tokens = .ok reading.tokens ∧
        reading.component = .ok (Component.ofTokens file parts.fields reading.tokens)) := by
  rw [Component.read]
  cases (tokenize file parts.bodyOffset locator parts.body).tokens with
  | error e => exact .inl ⟨rfl, e, rfl⟩
  | ok tokens => exact .inr ⟨rfl, rfl⟩

theorem tokens_read_noLookup {E : Type} (file source : Text) :
    let parts := FrontMatter.extract source
    (Component.read file (noLookup : Locator E) parts).tokens =
      tokensOf (scan parts.bodyOffset parts.body) := by
  intro parts
  have hlocated : (tokenize file parts.bodyOffset (noLookup : Locator E) parts.body).tokens =
      .ok (tokensOf (scan parts.bodyOffset parts.body)) :=
    tokens_locate_noLookup (inOrder_scan_extract source).stands
  rw [Component.read, hlocated]

/-- **Declarations stand on the lines that tokens point at.** The lines of the body are those of the
source behind the first `bodyOffset`; where no line is left the body is empty, which is one empty
line. A component is made from tokens that stand on later and later lines, behind the front matter
and within the source, and the line of the source with the number of a token opens its declaration:
it has the shape of such a declaration, with its name. -/
theorem tokens_on_opening_lines {E : Type} (file : Text) (locator : Locator E) (source : Text) :
    let ls := Text.lines source
    let parts := FrontMatter.extract source
    let reading := Component.read file locator parts
    (Text.lines parts.body =
        if parts.bodyOffset < ls.length then ls.drop parts.bodyOffset else [[]]) ∧
      (∀ c, reading.component = .ok c →
        c = Component.ofTokens file parts.fields reading.tokens) ∧
      Component.ofSource file source = Component.ofTokens file parts.fields
        (Component.read file (noLookup : Locator E) parts).tokens ∧
      reading.tokens.Pairwise (fun t u ↦ t.line < u.line) ∧
      ∀ t ∈ reading.tokens, parts.bodyOffset + 1 ≤ t.line ∧ t.line ≤ ls.length ∧
        ∃ line, ls[(t.line - 1).toNat]? = some line ∧ line ∈ t.declaration.openings := by
  intro ls parts reading
  refine ⟨lines_body_extract source, ?_, ?_, ?_⟩
  · intro c hc
    rcases read_cases file locator parts with ⟨-, e, he⟩ | ⟨-, hok⟩
    · exact absurd (he.symm.trans hc) (by simp)
    · exact Except.ok.inj (hc.symm.trans hok)
  · rw [tokens_read_noLookup]
    rfl
  · rcases read_cases file locator parts with ⟨hnone, -⟩ | ⟨hlocated, -⟩
    · rw [hnone]
      exact ⟨List.Pairwise.nil, fun t ht ↦ absurd ht List.not_mem_nil⟩
    · exact (inOrder_scan_extract source).of_locate hlocated

/-- A function keeps a line that would declare something outside of it, and the template is never
closed: three tokens stand behind the front matter. -/
theorem tokens_on_opening_lines_of_page :
    let source := Text.unlines ["---", "title: A", "---", "import Box from './Box.mtm';", "",
      "$go = (a) => \x7b", "$x! = 1", "\x7d", " <template><p>", "$y! = 2"]
    let tokens := (Component.read "page.mtm" (noLookup : Locator Empty)
      (FrontMatter.extract source)).tokens
    tokens.map Token.line = [4, 6, 9] ∧ tokens.Pairwise (fun t u ↦ t.line < u.line) ∧
      ∀ t ∈ tokens, 3 + 1 ≤ t.line ∧ t.line ≤ 10 ∧ ∃ line,
        (Text.lines source)[(t.line - 1).toNat]? = some line ∧ line ∈ t.declaration.openings := by
  refine ⟨by decide +kernel, ?_⟩
  exact (tokens_on_opening_lines "page.mtm" (noLookup : Locator Empty) _).2.2.2

/-- A source that ends with its front matter has an empty body, and that is one line and not
none. -/
theorem lines_body_of_bare_delimiter :
    let source : Text := "---"
    Text.lines (FrontMatter.extract source).body ≠
      (Text.lines source).drop (FrontMatter.extract source).bodyOffset := by
  decide

end Source

end PageCompiler
