import PageCompiler.Proofs.FilledPlaceholders
import PageCompiler.Proofs.WrittenConditions

/-!
# Declared names

Four places of a source have a say in what the name of a variable is: its declaration, the scripts
that refer to it, the conditions of blocks, and the braces that show it. A declaration takes any row
of word characters, and so do the braces. Scripts and conditions want a Latin letter or an
underscore at the beginning (`Script.IsIdentifier`), so a variable with another name can be declared
and shown, but neither a script nor a condition can refer to it.
-/

namespace PageCompiler

/-! ## References in scripts -/

namespace Script

variable {names : List Text} {n : Text}

theorem isIdentifier_cons_iff {c : Char} {w : Text} (hword : ∀ d ∈ w, isWord d = true) :
    IsIdentifier (c :: w) ↔ isLatinLetter c = true ∨ c = '_' := by
  constructor
  · rintro ⟨d, v, heq, hfirst, -⟩
    rwa [(List.cons.inj heq).1]
  · exact fun hfirst ↦ ⟨c, w, rfl, hfirst, hword⟩

theorem isPlain_dollar (nested : Bool) : IsPlain nested '$' := by
  refine ⟨by decide, by decide, by decide, fun _ ↦ by decide⟩

theorem noRemark_dollar (cs : Text) : NoRemark '$' cs := fun heq ↦ absurd heq (by decide)

theorem lexFrom_word (blocked : Bool) {w : Text} (hword : ∀ d ∈ w, isWord d = true) :
    lexFrom [] blocked w = w.map fun c ↦ .text [c] := by
  have hcode : InCode [] := by rintro ⟨⟩
  induction w generalizing blocked with
  | nil => rw [lexFrom, List.map_nil]
  | cons c w ih =>
    obtain ⟨hc, hw⟩ := List.forall_mem_cons.mp hword
    have hne : ∀ d, isWord d = false → c ≠ d := by
      rintro d hd rfl
      exact Bool.false_ne_true (hd.symm.trans hc)
    have hnext : next [] blocked c w = (.text [c], [], blocks c, w) :=
      next_plain hcode (isPlain_of_isWord hc) (fun heq ↦ absurd heq (hne _ (by decide)))
        fun heq ↦ absurd heq (hne _ (by decide))
    rw [lexFrom, hnext]
    exact congrArg (.text [c] :: ·) (ih _ hw)

theorem dereference_of_isIdentifier (hname : IsIdentifier n) (hmem : n ∈ names) :
    dereference names ('$' :: n) = n ++ ".value" := by
  have hcode : InCode [] := by rintro ⟨⟩
  have hread : reference? false n = some (n, []) :=
    reference?_eq_some_iff.mpr ⟨rfl, (List.append_nil n).symm, hname, by rintro d ⟨⟩⟩
  have hnext : next [] false '$' n = (.reference n, [], true, []) := by
    rw [next_of_inCode hcode, nextInCode_of_isPlain (isPlain_dollar _) (noRemark_dollar n),
      if_pos rfl, hread]
  have hdone : lexFrom [] true [] = [] := by rw [lexFrom]
  rw [dereference, lex, lexFrom, hnext]
  dsimp only
  rw [hdone, List.flatMap_cons, List.flatMap_nil, List.append_nil, Lexeme.dereferenced, if_pos hmem]

theorem dereference_of_not_isIdentifier (hword : Text.IsName n) (hname : ¬ IsIdentifier n) :
    dereference names ('$' :: n) = '$' :: n := by
  have hcode : InCode [] := by rintro ⟨⟩
  have hread : reference? false n = none := by
    rw [Option.eq_none_iff_forall_ne_some]
    rintro ⟨m, rest⟩ hsome
    obtain ⟨-, rfl, ⟨c, w, rfl, hfirst, -⟩, -⟩ := reference?_eq_some_iff.mp hsome
    exact hname ⟨c, w ++ rest, rfl, hfirst, (List.forall_mem_cons.mp hword.2).2⟩
  have hnext : next [] false '$' n = (.text ['$'], [], blocks '$', n) :=
    next_plain hcode (isPlain_dollar _) (noRemark_dollar n) fun _ ↦ hread
  rw [dereference, lex, lexFrom, hnext]
  dsimp only
  rw [lexFrom_word _ hword.2, List.flatMap_cons, List.flatMap_map]
  exact congrArg ('$' :: ·) (List.flatMap_singleton' n)

end Script

/-! ## Variables in conditions -/

namespace Condition

variable {known : List Text} {n : Text}

theorem parse_of_isIdentifier (hname : Script.IsIdentifier n) (hmem : n ∈ known) :
    parse ('$' :: n) known = .ok (.var n) := by
  have hwritable : (Tree.var n).Writable known := ⟨hname, hmem⟩
  obtain ⟨tokens, hscan, hlexemes⟩ := exists_scanFrom_writtenRow hwritable.lexemes 0
  have hderives : Derives known .disjunction (tokens.map Token.lexeme) (.var n) := by
    rw [hlexemes]
    exact (Tree.derives hwritable).loosen (Part.looseness_le _)
  have hwritten : writtenRow (Tree.var n).lexemes = '$' :: n := rfl
  rw [hwritten] at hscan
  rw [parse, scan, hscan]
  exact (ofTokens_eq_ok_iff (spelled_of_scanFrom hscan)).mpr hderives

theorem operator?_dollar (t : Text) : operator? ('$' :: t) = none := by
  have hall : ∀ p ∈ operators, p.1 ≠ [] ∧ p.1.head? ≠ some '$' := by decide
  rw [operator?, List.findSome?_eq_none_iff]
  rintro ⟨symbol, lexeme⟩ hp
  obtain ⟨hne, hhead⟩ := hall _ hp
  obtain ⟨c, cs, rfl⟩ := List.exists_cons_of_ne_nil hne
  have hc : '$' ≠ c := fun heq ↦ hhead (congrArg some heq.symm)
  dsimp only
  rw [Text.after?_of_ne hc, Option.map_none]

theorem parse_of_not_isIdentifier (hword : Text.IsName n) (hname : ¬ Script.IsIdentifier n) :
    parse ('$' :: n) known = .error (.malformed (.unexpectedChar '$') 0) := by
  obtain ⟨c, w, rfl, -⟩ := hword.exists_cons
  have hbegins : ¬ beginsName c = true := by
    rw [beginsName_iff, ← Script.isIdentifier_cons_iff (List.forall_mem_cons.mp hword.2).2]
    exact hname
  have hlexeme : lexeme? ('$' :: c :: w) = .ok none := by
    rw [lexeme?, if_neg (by decide), if_neg (by decide), name?, if_neg hbegins]
    exact congrArg Except.ok (operator?_dollar _)
  rw [parse, scan, scanFrom, if_neg (by decide), hlexeme]

end Condition

/-! ## Variables in braces -/

namespace Markup

variable {n : Text}

/-- A variable in braces, as it is written. -/
def bound (n : Text) : Text := "\x7b$" ++ (n ++ ['\x7d'])

theorem readBinding_eq_some_iff {t rest : Text} :
    readBinding t = some (n, rest) ↔ Text.IsName n ∧ t = bound n ++ rest := by
  rw [reads_binding.iff [] t n rest]
  constructor
  · rintro ⟨source, ⟨hname, rfl⟩, rfl⟩
    exact ⟨hname, rfl⟩
  · rintro ⟨hname, rfl⟩
    exact ⟨_, ⟨hname, rfl⟩, rfl⟩

/-- No variable in braces goes on over an opening brace. -/
theorem readBinding_append_brace {t : Text} (hne : t ≠ []) (back : Text) :
    readBinding (t ++ '\x7b' :: back) =
      (readBinding t).map fun found ↦ (found.1, found.2 ++ '\x7b' :: back) := by
  cases hread : readBinding t with
  | some found =>
    obtain ⟨hname, heq⟩ := readBinding_eq_some_iff.mp hread
    refine readBinding_eq_some_iff.mpr ⟨hname, ?_⟩
    rw [heq, List.append_assoc]
  | none =>
    rw [Option.map_none, Option.eq_none_iff_forall_ne_some]
    rintro ⟨name, rest⟩ hsome
    obtain ⟨hname, heq⟩ := readBinding_eq_some_iff.mp hsome
    -- What is read ends in the text, or else the brace is one of its characters.
    have hinside : ∀ u, t ≠ bound name ++ u := fun u htext ↦
      Option.some_ne_none _ ((readBinding_eq_some_iff.mpr ⟨hname, htext⟩).symm.trans hread)
    rcases List.append_eq_append_iff.mp heq with ⟨u, hbound, hbrace⟩ | ⟨u, htext, -⟩
    · cases u with
      | nil => exact hinside [] (by rw [hbound, List.append_nil, List.append_nil])
      | cons d u =>
        obtain ⟨c, t, rfl⟩ := List.exists_cons_of_ne_nil hne
        have htail : '$' :: (name ++ ['\x7d']) = t ++ d :: u := (List.cons.inj hbound).2
        have hmem : '\x7b' ∈ '$' :: (name ++ ['\x7d']) := by
          rw [htail, (List.cons.inj hbrace).1]
          exact List.mem_append_right _ List.mem_cons_self
        have hnone : '\x7b' ∉ name := hname.notMem_of_not_isWord (by decide)
        simp [hnone] at hmem
    · exact hinside u htext

theorem pieces_readBinding_append (front back : Text) :
    Text.pieces readBinding (front ++ '\x7b' :: back) =
      Text.pieces readBinding front ++ Text.pieces readBinding ('\x7b' :: back) := by
  fun_induction Text.pieces readBinding front with
  | case1 => rfl
  | case2 c cs hread ih =>
    have hmore : readBinding (c :: (cs ++ '\x7b' :: back)) = none := by
      rw [← List.cons_append, readBinding_append_brace (List.cons_ne_nil _ _), hread]
      rfl
    rw [List.cons_append, Text.pieces_cons_of_none hmore, ih]
    rfl
  | case3 c cs name rest hread hle ih =>
    have hmore : readBinding (c :: (cs ++ '\x7b' :: back)) =
        some (name, rest ++ '\x7b' :: back) := by
      rw [← List.cons_append, readBinding_append_brace (List.cons_ne_nil _ _), hread]
      rfl
    have hlength : (rest ++ '\x7b' :: back).length ≤ (cs ++ '\x7b' :: back).length := by
      rw [List.length_append, List.length_append]
      omega
    rw [List.cons_append, Text.pieces_cons_of_some hmore hlength, ih]
    rfl
  | case4 c cs name rest hread hle ih =>
    obtain ⟨-, heq⟩ := readBinding_eq_some_iff.mp hread
    have hsum := congrArg List.length heq
    rw [bound] at hsum
    simp only [List.length_cons, List.length_append] at hsum
    omega

/-- **A variable in braces is shown wherever it stands.** -/
theorem lowerBindings_bound (hname : Text.IsName n) (front back : Text) :
    lowerBindings (front ++ (bound n ++ back)) =
        lowerBindings front ++ (writeBinding n ++ lowerBindings back) ∧
      n ∈ bindings (front ++ (bound n ++ back)) := by
  have hcuts : Text.Cuts readBinding (bound n) [.found n] :=
    .found (List.cons_ne_nil _ _) fun rest ↦ readBinding_eq_some_iff.mpr ⟨hname, rfl⟩
  have hpieces : Text.pieces readBinding (front ++ (bound n ++ back)) =
      Text.pieces readBinding front ++ ([.found n] ++ Text.pieces readBinding back) := by
    rw [← hcuts back]
    exact pieces_readBinding_append front _
  constructor
  · simp only [lowerBindings, Text.substitute_eq_flatMap]
    rw [hpieces, List.flatMap_append, List.flatMap_append, List.flatMap_singleton]
    rfl
  · rw [bindings, mem_distinct, Text.findAll_eq_filterMap, hpieces, List.filterMap_append,
      List.filterMap_append]
    exact List.mem_append_right _ (List.mem_append_left _ List.mem_cons_self)

theorem beforeEvents_of_notMem {c : Component} (htag : '<' ∉ c.markup)
    (hfill : fillPlaceholders c.fields c.markup = c.markup) : beforeEvents c = c.markup := by
  have hread : ∀ d ∈ c.markup, ∀ name u, readElement name (d :: u) = none ∧
      readSelfClosing name (d :: u) = none := by
    intro d hd name u
    have hne : d ≠ '<' := fun heq ↦ htag (heq ▸ hd)
    exact ⟨not_ne_iff.mp fun h ↦ not_beginsTag_of_ne hne u (beginsTag_of_readElement h),
      not_ne_iff.mp fun h ↦ not_beginsTag_of_ne hne u (beginsTag_of_readSelfClosing h)⟩
  have hlinks : lowerLinks c.markup = c.markup :=
    Text.substitute_of_none (fun d hd u ↦ (hread d hd _ u).1) _
  have himport : ∀ i, lowerImport c.markup i = c.markup := by
    intro i
    rw [lowerImport]
    dsimp only
    rw [Text.substitute_of_none fun d hd u ↦ (hread d hd _ u).2,
      Text.substitute_of_none fun d hd u ↦ (hread d hd _ u).1]
  have hcomponents : ∀ imports, lowerComponents imports c.markup = c.markup := by
    intro imports
    induction imports with
    | nil => rfl
    | cons i imports ih => rw [lowerComponents, List.foldl_cons, himport, ← lowerComponents, ih]
  rw [beforeEvents, hfill, hlinks, hcomponents]

def boundTree (n : Text) : Tree := .leaf (.binding n) .nil

theorem beforeEvents_bound (hname : Text.IsName n) (c : Component) (line : Nat) :
    beforeEvents (c.withMarkup line (bound n)) = (boundTree n).source := by
  have hword : ∀ d, isWord d = false → d ∉ n := fun d ↦ hname.notMem_of_not_isWord
  have htag : '<' ∉ bound n := by
    simp [bound, hword '<' (by decide)]
  have hbrace : '\x7b' ∉ '$' :: (n ++ ['\x7d']) := by
    simp [hword '\x7b' (by decide)]
  have hfills : Fills c.fields (bound n) (bound n) := fills_brace (by decide) hbrace
  have hsource : (boundTree n).source = bound n := List.append_nil (bound n)
  rw [hsource]
  exact beforeEvents_of_notMem htag hfills.fillPlaceholders_eq

theorem sound_boundTree (hname : Text.IsName n) : (boundTree n).Sound [] [] where
  leaf := List.forall_mem_singleton.mpr hname
  frame := by rintro q ⟨⟩
  nested := by rintro q ⟨⟩
  apart q hq _ := by
    rw [List.mem_singleton.mp hq]
    rfl

/-- A template that is a variable in braces shows it and does nothing else. -/
theorem lowerTemplate_bound (hname : Text.IsName n) (c : Component) (line : Nat) :
    (c.withMarkup line (bound n)).lowerTemplate =
      ⟨.ok { html := writeBinding n, bindings := [n] }, [], []⟩ := by
  have hsound := sound_boundTree hname
  have hevents := beforeEvents_bound hname c line
  have hhandlers : eventBindings (boundTree n).source = [] := Tree.eventBindings_source hsound
  -- The passes over events and blocks find nothing and keep the tree.
  have hblocks : beforeBlocks (c.withMarkup line (bound n)) = (boundTree n).source := by
    rw [beforeBlocks, hevents]
    exact Tree.lowerEvents_source hsound
  have hnone : blocks (boundTree n).source = [] := (Tree.blocks_source hsound).1
  have hbindings : beforeBindings (c.withMarkup line (bound n)) = (boundTree n).source := by
    rw [beforeBindings, hblocks]
    exact Tree.lowerBlocks_source hsound
  have hhtml : lowerBindings (boundTree n).source = writeBinding n := by
    have hnil : lowerBindings [] = [] := by
      rw [lowerBindings, Text.substitute, Text.pieces]
      rfl
    refine (lowerBindings_bound hname [] []).1.trans ?_
    rw [hnil, List.nil_append, List.append_nil]
  have hshown : bindings (boundTree n).source = [n] :=
    Tree.bindings_source hsound (List.forall_mem_singleton.mpr rfl)
  rw [Component.lowerTemplate, hblocks, hnone, lower, hbindings, hevents, hhtml, hhandlers, hshown]
  rfl

end Markup

/-! ## All places -/

namespace Component

/-- **What a declared name is good for.** It can be shown wherever it stands in braces. Scripts and
conditions know it exactly if it begins with a Latin letter or an underscore; otherwise a script is
left as it is, and a condition is rejected at the dollar sign. -/
theorem declared_name_known_iff (file source : Text) {n : Text}
    (h : n ∈ (ofSource file source).variableNames) :
    let c := ofSource file source
    (Script.dereference c.variableNames ('$' :: n) = n ++ ".value" ↔ Script.IsIdentifier n) ∧
      (Condition.parse ('$' :: n) c.variableNames = .ok (.var n) ↔ Script.IsIdentifier n) ∧
      (¬ Script.IsIdentifier n →
        Script.dereference c.variableNames ('$' :: n) = '$' :: n ∧
        Condition.parse ('$' :: n) c.variableNames =
          .error (.malformed (.unexpectedChar '$') 0)) ∧
      (∀ front back, Markup.lowerBindings (front ++ (Markup.bound n ++ back)) =
          Markup.lowerBindings front ++ (Markup.writeBinding n ++ Markup.lowerBindings back) ∧
        n ∈ Markup.bindings (front ++ (Markup.bound n ++ back))) ∧
      ∀ line, (c.withMarkup line (Markup.bound n)).lowerTemplate =
        ⟨.ok { html := Markup.writeBinding n, bindings := [n] }, [], []⟩ := by
  have hname := (wellNamed_ofSource file source).variableNames n h
  have hother : ¬ Script.IsIdentifier n →
      Script.dereference (ofSource file source).variableNames ('$' :: n) = '$' :: n ∧
        Condition.parse ('$' :: n) (ofSource file source).variableNames =
          .error (.malformed (.unexpectedChar '$') 0) := fun hnot ↦
    ⟨Script.dereference_of_not_isIdentifier hname hnot,
      Condition.parse_of_not_isIdentifier hname hnot⟩
  refine ⟨⟨fun hvalue ↦ ?_, fun hid ↦ Script.dereference_of_isIdentifier hid h⟩,
    ⟨fun hvar ↦ ?_, fun hid ↦ Condition.parse_of_isIdentifier hid h⟩, hother,
    Markup.lowerBindings_bound hname, Markup.lowerTemplate_bound hname _⟩
  · by_contra hnot
    rw [(hother hnot).1] at hvalue
    have hlength := congrArg List.length hvalue
    have hsuffix : (".value" : Text).length = 6 := rfl
    rw [List.length_cons, List.length_append, hsuffix] at hlength
    omega
  · by_contra hnot
    rw [(hother hnot).2] at hvar
    cases hvar

/-- A name with an accent is known, if the accent is not on its first letter. -/
theorem accent_inside_known :
    let c := ofSource "p.mtm" "$caf\u00e9! = 1"
    ("caf\u00e9" : Text) ∈ c.variableNames ∧
      Script.dereference c.variableNames "$caf\u00e9" = "caf\u00e9.value" ∧
      Condition.parse "$caf\u00e9" c.variableNames = .ok (.var "caf\u00e9") ∧
      ∀ line, (c.withMarkup line "\x7b$caf\u00e9\x7d").lowerTemplate =
        ⟨.ok { html := Markup.writeBinding "caf\u00e9", bindings := ["caf\u00e9"] }, [], []⟩ := by
  intro c
  have hmem : ("caf\u00e9" : Text) ∈ c.variableNames := by decide +kernel
  have hname : Script.IsIdentifier "caf\u00e9" := ⟨_, _, rfl, by decide, by decide +kernel⟩
  obtain ⟨hscript, hcondition, -, -, htemplate⟩ := declared_name_known_iff _ _ hmem
  exact ⟨hmem, hscript.mpr hname, hcondition.mpr hname, htemplate⟩

/-- **A declared name is not known everywhere.** With the accent on its first letter, neither a
script nor a condition can refer to it. -/
theorem accent_at_beginning_not_known :
    let c := ofSource "p.mtm" "$\u00e9! = 1"
    c.variableNames = ["\u00e9"] ∧
      Script.dereference c.variableNames "$\u00e9" = "$\u00e9" ∧
      Condition.parse "$\u00e9" c.variableNames = .error (.malformed (.unexpectedChar '$') 0) := by
  decide +kernel

end Component

end PageCompiler
