import PageCompiler.Proofs.ConditionGrammar
import PageCompiler.Proofs.SourceRoundTrip
import PageCompiler.Proofs.TemplateForms
import PageCompiler.Script.Program

/-!
# The table of conditions

Generating a program compiles the conditions of the template's blocks. A condition that is rejected
does not get in the way: it stands in the table without a tree, and there is a warning about it.
Nothing else in a source is looked at closely enough to be rejected, so generation would never fail,
were it not for numerals. A numeral of more than `Numeral.maxDigits` digits is refused by the
scanner and not rejected by the parser, and this ends the generation.

That is the only way: generation succeeds exactly when no condition is *refused*, and a refused
condition has a row of that many digits in it.
-/

namespace PageCompiler

/-! ## Refused conditions -/

namespace Condition

/-- Whether a condition has a numeral that is refused. -/
def Refused (condition : Text) : Prop := ∃ refusal, scan condition = .error (.numeral refusal)

/-- Whether a text has more decimal digits in a row than a numeral may have. -/
def HasLongRow (t : Text) : Prop :=
  ∃ row, row <:+: t ∧ Numeral.maxDigits < row.length ∧ ∀ c ∈ row, isDecimalDigit c = true

theorem parse_eq_numeral_iff {condition : Text} {known : List Text} {refusal : NumeralTooLong} :
    parse condition known = .error (.numeral refusal) ↔
      scan condition = .error (.numeral refusal) := by
  rw [parse]
  cases hscan : scan condition with
  | error e => simp
  | ok tokens =>
    refine iff_of_false (fun h ↦ ?_) (fun h ↦ ?_)
    · exact blames_of_ofTokens_eq_error h
    · cases h

theorem Error.severity_of_diagnostic (e : Error) {condition : Text} {known : List Text}
    {file : Option Text} {severity : Severity} {d : Diagnostic}
    (h : e.diagnostic condition known file severity = .ok d) : d.severity = severity := by
  cases e with
  | malformed fault offset =>
    obtain rfl := Except.ok.inj h
    rfl
  | unknown name =>
    obtain rfl := Except.ok.inj h
    rfl
  | numeral refusal => cases h

theorem hasLongRow_of_number {t : Text} {e : Error} (h : number t = .error e) : HasLongRow t := by
  rw [number] at h
  dsimp only at h
  split_ifs at h with hfraction hlong
  exact ⟨t.takeWhile isDecimalDigit, (List.takeWhile_prefix _).isInfix, hlong,
    fun c hc ↦ List.mem_takeWhile_imp hc⟩

theorem hasLongRow_of_lexeme? {t : Text} {e : Error} (h : lexeme? t = .error e) : HasLongRow t := by
  unfold lexeme? at h
  split at h
  · cases h
  · split_ifs at h
    · exact hasLongRow_of_number (eq_error_of_map_eq_error h)
    · split at h <;> cases h

theorem HasLongRow.of_suffix {t rest : Text} (h : HasLongRow rest) (hsuffix : rest <:+ t) :
    HasLongRow t := by
  obtain ⟨row, hrow, hlong⟩ := h
  exact ⟨row, hrow.trans hsuffix.isInfix, hlong⟩

theorem hasLongRow_of_scanFrom {offset : Nat} {t : Text} {refusal : NumeralTooLong}
    (h : scanFrom offset t = .error (.numeral refusal)) : HasLongRow t := by
  fun_induction scanFrom offset t with
  | case1 => cases h
  | case2 offset c cs hblank ih => exact (ih h).of_suffix (List.suffix_cons c cs)
  | case3 offset c cs hblank other hlexeme => exact hasLongRow_of_lexeme? hlexeme
  | case4 => cases h
  | case5 offset c cs hblank lexeme rest hlexeme hshort other hrest ih =>
    obtain rfl := Except.error.inj h
    exact (ih hrest).of_suffix (lexeme?_begins hlexeme).1
  | case6 => cases h
  | case7 => cases h

theorem Refused.hasLongRow {condition : Text} (h : Refused condition) : HasLongRow condition := by
  obtain ⟨refusal, hscan⟩ := h
  exact hasLongRow_of_scanFrom hscan

end Condition

/-! ## One condition -/

namespace Lowering

variable {c : Component} {known table : OrderedMap (Option Condition.Tree)} {condition : Text}

/-- Whether a table says of a condition what it should: its tree, or none, and then there is a
warning. -/
def Entered (c : Component) (table : OrderedMap (Option Condition.Tree))
    (warnings : List Diagnostic) (condition : Text) : Prop :=
  match Condition.parse condition c.variableNames with
  | .ok tree => OrderedMap.get? table condition = some (some tree)
  | .error e => OrderedMap.get? table condition = some none ∧
      ∃ d ∈ warnings, e.diagnostic condition c.variableNames (some c.file) .warning = .ok d

/-- A condition is entered unless it was there before; only a numeral that is refused ends the
run. -/
theorem enter_cases (c : Component) (known : OrderedMap (Option Condition.Tree))
    (condition : Text) :
    (condition ∈ OrderedMap.keys known ∧ enter c known condition = (.ok known, [])) ∨
    condition ∉ OrderedMap.keys known ∧
      ((∃ refusal, Condition.scan condition = .error (.numeral refusal) ∧
          enter c known condition = (.error refusal, [])) ∨
        ∃ entry rejected,
          enter c known condition = (.ok (OrderedMap.put condition entry known), rejected) ∧
          ∀ table warnings, OrderedMap.get? table condition = some entry →
            (∀ d ∈ rejected, d ∈ warnings) → Entered c table warnings condition) := by
  rw [enter]
  by_cases hknown : condition ∈ OrderedMap.keys known
  · rw [if_pos (OrderedMap.contains_iff.mpr hknown)]
    exact .inl ⟨hknown, rfl⟩
  · rw [if_neg fun h ↦ hknown (OrderedMap.contains_iff.mp h)]
    refine .inr ⟨hknown, ?_⟩
    simp only [Entered, compileCondition]
    cases hparse : Condition.parse condition c.variableNames with
    | ok tree => exact .inr ⟨some tree, [], rfl, fun _ _ hget _ ↦ hget⟩
    | error e =>
      cases e with
      | numeral refusal => exact .inl ⟨refusal, Condition.parse_eq_numeral_iff.mp hparse, rfl⟩
      | malformed fault offset =>
        exact .inr ⟨none, [_], rfl, fun _ _ hget hwarned ↦
          ⟨hget, _, hwarned _ List.mem_cons_self, rfl⟩⟩
      | unknown name =>
        exact .inr ⟨none, [_], rfl, fun _ _ hget hwarned ↦
          ⟨hget, _, hwarned _ List.mem_cons_self, rfl⟩⟩

theorem Entered.mono {warnings more : List Diagnostic} (hmore : ∀ d ∈ warnings, d ∈ more)
    (h : Entered c table warnings condition) : Entered c table more condition := by
  rw [Entered] at h ⊢
  split at h
  · exact h
  · obtain ⟨hget, d, hd, hdiagnostic⟩ := h
    exact ⟨hget, d, hmore d hd, hdiagnostic⟩

theorem Entered.not_refused {warnings : List Diagnostic} (h : Entered c table warnings condition) :
    ¬ Condition.Refused condition := by
  rintro ⟨refusal, hscan⟩
  rw [Entered, Condition.parse_eq_numeral_iff.mpr hscan] at h
  obtain ⟨-, d, -, hdiagnostic⟩ := h
  exact nomatch hdiagnostic

/-! ## All conditions -/

variable {b : Markup.ConditionalBlock} {blocks : List Markup.ConditionalBlock}

theorem tableFrom_cons {more : OrderedMap (Option Condition.Tree)} {rejected : List Diagnostic}
    (h : enter c known b.condition = (.ok more, rejected)) (rest : List Markup.ConditionalBlock) :
    (tableFrom c known (b :: rest)).conditions = (tableFrom c more rest).conditions ∧
      (tableFrom c known (b :: rest)).warnings =
        nestingWarnings c b ++ rejected ++ (tableFrom c more rest).warnings := by
  rw [tableFrom, h]
  exact ⟨rfl, rfl⟩

/-- A table that is put together keeps what it had, and the conditions of the blocks are entered in
the order in which they first appear. -/
theorem tableFrom_eq_ok (h : (tableFrom c known blocks).conditions = .ok table) :
    OrderedMap.keys table = (blocks.map Markup.ConditionalBlock.condition).foldl
        (fun seen t ↦ if t ∈ seen then seen else seen ++ [t]) (OrderedMap.keys known) ∧
      (∀ key ∈ OrderedMap.keys known, OrderedMap.get? table key = OrderedMap.get? known key) ∧
      ∀ b ∈ blocks, b.condition ∉ OrderedMap.keys known →
        Entered c table (tableFrom c known blocks).warnings b.condition := by
  induction blocks generalizing known with
  | nil =>
    obtain rfl : known = table := Except.ok.inj h
    exact ⟨rfl, fun _ _ ↦ rfl, fun _ hb ↦ absurd hb List.not_mem_nil⟩
  | cons b rest ih =>
    rw [List.map_cons, List.foldl_cons]
    rcases enter_cases c known b.condition with ⟨hknown, henter⟩ |
      ⟨hnew, ⟨refusal, -, henter⟩ | ⟨entry, rejected, henter, hentered⟩⟩
    · obtain ⟨hconditions, hwarnings⟩ := tableFrom_cons henter rest
      obtain ⟨hkeys, hkept, hrest⟩ := ih (hconditions ▸ h)
      rw [if_pos hknown, hwarnings]
      refine ⟨hkeys, hkept, List.forall_mem_cons.mpr ⟨fun hb ↦ absurd hknown hb, ?_⟩⟩
      exact fun b' hb' hnew ↦ (hrest b' hb' hnew).mono fun d ↦ List.mem_append_right _
    · rw [tableFrom, henter] at h
      cases h
    · obtain ⟨hconditions, hwarnings⟩ := tableFrom_cons henter rest
      obtain ⟨hkeys, hkept, hrest⟩ := ih (hconditions ▸ h)
      rw [OrderedMap.keys_put, if_neg hnew] at hkeys
      rw [if_neg hnew, hwarnings]
      have hfirst : Entered c table (nestingWarnings c b ++ rejected ++
          (tableFrom c (OrderedMap.put b.condition entry known) rest).warnings) b.condition := by
        refine hentered table _ ?_ fun d hd ↦ by simp [hd]
        rw [hkept b.condition (OrderedMap.mem_keys_put.mpr (.inl rfl)), OrderedMap.get?_put_self]
      -- The rest of the run keeps the new entry, as it keeps everything that it finds.
      refine ⟨hkeys, fun key hkey ↦ ?_, List.forall_mem_cons.mpr ⟨fun _ ↦ hfirst, ?_⟩⟩
      · have hne : key ≠ b.condition := fun heq ↦ hnew (heq ▸ hkey)
        rw [hkept key (OrderedMap.mem_keys_put.mpr (.inr hkey)), OrderedMap.get?_put_of_ne hne]
      · intro b' hb' hnew'
        -- For the rest of the run this condition is an old one, so `ih` says nothing about it.
        by_cases heq : b'.condition = b.condition
        · rw [heq]
          exact hfirst
        · have hnew' : b'.condition ∉
              OrderedMap.keys (OrderedMap.put b.condition entry known) := by
            rw [OrderedMap.mem_keys_put, not_or]
            exact ⟨heq, hnew'⟩
          exact (hrest b' hb' hnew').mono fun d ↦ List.mem_append_right _

theorem tableFrom_eq_error {refusal : NumeralTooLong}
    (h : (tableFrom c known blocks).conditions = .error refusal) :
    ∃ b ∈ blocks, Condition.scan b.condition = .error (.numeral refusal) := by
  induction blocks generalizing known with
  | nil => cases h
  | cons b rest ih =>
    rcases enter_cases c known b.condition with ⟨-, henter⟩ |
      ⟨-, ⟨refusal', hscan, henter⟩ | ⟨entry, rejected, henter, -⟩⟩
    · rw [(tableFrom_cons henter rest).1] at h
      obtain ⟨b', hb', hscan⟩ := ih h
      exact ⟨b', List.mem_cons_of_mem _ hb', hscan⟩
    · rw [tableFrom, henter] at h
      obtain rfl := Except.error.inj h
      exact ⟨b, List.mem_cons_self, hscan⟩
    · rw [(tableFrom_cons henter rest).1] at h
      obtain ⟨b', hb', hscan⟩ := ih h
      exact ⟨b', List.mem_cons_of_mem _ hb', hscan⟩

/-- A row of the table has the tree that its condition is read to, or it has none, and then the
condition is rejected. -/
theorem mem_table_cases (h : (tableFrom c [] blocks).conditions = .ok table)
    {entry : Option Condition.Tree} (hrow : (condition, entry) ∈ table) :
    (∃ tree, entry = some tree ∧ Condition.parse condition c.variableNames = .ok tree) ∨
      entry = none ∧ ∃ e d, Condition.parse condition c.variableNames = .error e ∧
        e.diagnostic condition c.variableNames (some c.file) .warning = .ok d := by
  obtain ⟨hkeys, -, hentered⟩ := tableFrom_eq_ok h
  have hdistinct : OrderedMap.keys table =
      distinct (blocks.map Markup.ConditionalBlock.condition) := hkeys
  have hget : OrderedMap.get? table condition = some entry :=
    OrderedMap.get?_of_mem (hdistinct ▸ nodup_distinct _) hrow
  have hkey : condition ∈ OrderedMap.keys table := OrderedMap.mem_keys.mpr ⟨_, hrow⟩
  rw [hdistinct, mem_distinct] at hkey
  obtain ⟨b, hb, rfl⟩ := List.mem_map.mp hkey
  have hentry := hentered b hb List.not_mem_nil
  rw [Entered, hget] at hentry
  split at hentry
  · next tree hparse => exact .inl ⟨tree, Option.some.inj hentry, hparse⟩
  · next e hparse =>
    obtain ⟨hnone, d, -, hd⟩ := hentry
    exact .inr ⟨Option.some.inj hnone, e, d, hparse, hd⟩

/-- A tree of the table is the one that its condition is read to. -/
theorem parse_of_mem_table (h : (tableFrom c [] blocks).conditions = .ok table)
    {row : Text × Option Condition.Tree} (hrow : row ∈ table) {tree : Condition.Tree}
    (htree : tree ∈ row.2) : Condition.parse row.1 c.variableNames = .ok tree := by
  rcases mem_table_cases h hrow with ⟨tree', htree', hparse⟩ | ⟨hnone, -⟩
  · rw [hparse, Option.some.inj (htree'.symm.trans htree)]
  · rw [hnone] at htree
    cases htree

end Lowering

/-! ## Generation -/

namespace Component

variable (c : Component) (mode : ScriptMode) (definitions : List Definition) (withLibrary : Bool)

def blocks (c : Component) : List Markup.ConditionalBlock :=
  Markup.blocks (Markup.beforeBlocks c)

/-- Generation ends as the table does, and reports what the table reports. -/
theorem generate_eq :
    (∀ refusal, (Lowering.tableFrom c [] c.blocks).conditions = .error refusal →
      (c.generate mode definitions withLibrary).result = .error refusal) ∧
    ∀ table, (Lowering.tableFrom c [] c.blocks).conditions = .ok table →
      (∃ generated, (c.generate mode definitions withLibrary).result = .ok generated ∧
        generated.template.conditions = table) ∧
      ∀ d ∈ (Lowering.tableFrom c [] c.blocks).warnings,
        d ∈ (c.generate mode definitions withLibrary).warnings := by
  constructor
  · intro refusal h
    rw [blocks] at h
    simp only [generate, lowerTemplate, h, Except.map]
  · intro table h
    rw [blocks] at h ⊢
    simp only [generate, lowerTemplate, h, Except.map]
    exact ⟨⟨_, rfl, rfl⟩, fun d hd ↦ List.mem_append_left _ hd⟩

/-- **Generation fails over long numerals only.** It gives a program exactly when no condition of
the template is refused, and a refused condition has a row of more than `Numeral.maxDigits` digits
in it. The table of the program has every condition once; what is well formed has its tree, and what
is not has none, and there is a warning about it. -/
theorem generate_fails_on_long_numerals_only :
    ((∃ generated, (c.generate mode definitions withLibrary).result = .ok generated) ↔
      ∀ b ∈ c.blocks, ¬ Condition.Refused b.condition) ∧
    (∀ b ∈ c.blocks, Condition.Refused b.condition → Condition.HasLongRow b.condition) ∧
    ∀ generated, (c.generate mode definitions withLibrary).result = .ok generated →
      OrderedMap.keys generated.template.conditions =
          distinct (c.blocks.map Markup.ConditionalBlock.condition) ∧
        ∀ b ∈ c.blocks,
          (∀ tree, Condition.parse b.condition c.variableNames = .ok tree →
            OrderedMap.get? generated.template.conditions b.condition = some (some tree)) ∧
          ∀ e, Condition.parse b.condition c.variableNames = .error e →
            OrderedMap.get? generated.template.conditions b.condition = some none ∧
              ∃ d ∈ (c.generate mode definitions withLibrary).warnings, d.severity = .warning ∧
                e.diagnostic b.condition c.variableNames (some c.file) .warning = .ok d := by
  obtain ⟨hfails, hsucceeds⟩ := c.generate_eq mode definitions withLibrary
  refine ⟨?_, fun b _ ↦ Condition.Refused.hasLongRow, ?_⟩
  · cases htable : (Lowering.tableFrom c [] c.blocks).conditions with
    | error refusal =>
      obtain ⟨b, hb, hscan⟩ := Lowering.tableFrom_eq_error htable
      refine iff_of_false ?_ fun h ↦ h b hb ⟨refusal, hscan⟩
      rw [hfails refusal htable]
      rintro ⟨generated, hgenerated⟩
      exact nomatch hgenerated
    | ok table =>
      obtain ⟨⟨generated, hgenerated, -⟩, -⟩ := hsucceeds table htable
      obtain ⟨-, -, hentered⟩ := Lowering.tableFrom_eq_ok htable
      exact iff_of_true ⟨generated, hgenerated⟩ fun b hb ↦
        (hentered b hb List.not_mem_nil).not_refused
  · intro generated hgenerated
    cases htable : (Lowering.tableFrom c [] c.blocks).conditions with
    | error refusal =>
      rw [hfails refusal htable] at hgenerated
      exact nomatch hgenerated
    | ok table =>
      obtain ⟨⟨generated', hgenerated', rfl⟩, hwarnings⟩ := hsucceeds table htable
      obtain rfl : generated' = generated := Except.ok.inj (hgenerated'.symm.trans hgenerated)
      obtain ⟨hkeys, -, hentered⟩ := Lowering.tableFrom_eq_ok htable
      refine ⟨hkeys, fun b hb ↦ ⟨fun tree htree ↦ ?_, fun e he ↦ ?_⟩⟩
      · have hb := hentered b hb List.not_mem_nil
        rw [Lowering.Entered, htree] at hb
        exact hb
      · have hb := hentered b hb List.not_mem_nil
        rw [Lowering.Entered, he] at hb
        obtain ⟨hget, d, hd, hdiagnostic⟩ := hb
        exact ⟨hget, d, hwarnings d hd, e.severity_of_diagnostic hdiagnostic, hdiagnostic⟩

end Component

/-! ## A numeral that is too long -/

namespace Markup

theorem lowerEvents_cons {c : Char} (h : inAttribute c = false) (cs : Text) :
    lowerEvents (c :: cs) = c :: lowerEvents cs := by
  rw [lowerEvents, eventPieces_cons h, List.flatMap_cons]
  rfl

/-- A run of characters that may be the name of an event stays as it is where no handler follows. -/
theorem lowerEvents_append {c : Char} {run rest : Text}
    (hrun : ∀ d ∈ c :: run, inAttribute d = true)
    (hrest : ∀ d, rest.head? = some d → inAttribute d = false)
    (hhandler : (if isLatinLetter c then readHandler rest else none) = none) :
    lowerEvents (c :: run ++ rest) = c :: run ++ lowerEvents rest := by
  rw [lowerEvents, eventPieces_name hrun hrest hhandler, List.flatMap_append, ← lowerEvents,
    List.flatMap_map]
  simp

/-- A block under a condition that is a numeral of so many digits. -/
def numeralBlock (digits : Nat) : Text :=
  "\x7b#if " ++ (List.replicate digits '1' ++ "\x7dx\x7b/if\x7d")

variable {digits : Nat}

theorem readPlaceholder_of_ne {c : Char} (h : c ≠ '\x7b') (t : Text) :
    readPlaceholder (c :: t) = none := by
  rw [readPlaceholder, Text.after?_of_ne h]
  rfl

theorem readElement_of_ne {c : Char} (h : c ≠ '<') (name t : Text) :
    readElement name (c :: t) = none := by
  rw [readElement, readOpening, Text.after?_of_ne h]
  rfl

theorem fillPlaceholders_numeralBlock (fields : FrontMatter) :
    fillPlaceholders fields (numeralBlock digits) = numeralBlock digits := by
  have hpass : ∀ t : Text, '\x7b' ∉ t → ∀ c ∈ t, ∀ u, readPlaceholder (c :: u) = none :=
    fun t ht c hc ↦ readPlaceholder_of_ne fun heq ↦ ht (heq ▸ hc)
  have hblock : numeralBlock digits =
      '\x7b' :: (("#if " : Text) ++ (List.replicate digits '1' ++ ("\x7dx" : Text)) ++
        '\x7b' :: ("/if\x7d" : Text)) := by
    simp [numeralBlock]
  rw [fillPlaceholders, hblock, Text.substitute_cons_of_none rfl,
    Text.substitute_append_of_none (hpass _ (by simp)), Text.substitute_cons_of_none rfl,
    Text.substitute_of_none (hpass _ (by simp))]

theorem lowerLinks_numeralBlock : lowerLinks (numeralBlock digits) = numeralBlock digits := by
  refine Text.substitute_of_none (fun c hc ↦ readElement_of_ne ?_ "Link") _
  rintro rfl
  simp [numeralBlock] at hc

theorem lowerEvents_numeralBlock :
    lowerEvents (numeralBlock (digits + 1)) = numeralBlock (digits + 1) := by
  have hblock : numeralBlock (digits + 1) =
      '\x7b' :: '#' :: (['i', 'f'] ++ ' ' :: ('1' :: List.replicate digits '1' ++
        ("\x7dx\x7b/if\x7d" : Text))) := by
    simp [numeralBlock, List.replicate_succ]
  have hones : ∀ d ∈ '1' :: List.replicate digits '1', inAttribute d = true := by
    intro d hd
    rw [← List.replicate_succ] at hd
    rw [List.eq_of_mem_replicate hd]
    decide
  have hend : lowerEvents ("\x7dx\x7b/if\x7d" : Text) = ("\x7dx\x7b/if\x7d" : Text) := by
    decide +kernel
  rw [hblock, lowerEvents_cons (by decide), lowerEvents_cons (by decide),
    lowerEvents_append (by decide) (by simp; decide) rfl, lowerEvents_cons (by decide),
    lowerEvents_append hones (by simp; decide) rfl, hend]

theorem readBlock_numeralBlock :
    readBlock (numeralBlock (digits + 1)) =
      some (⟨List.replicate (digits + 1) '1', ['x']⟩, []) := by
  have hblock : numeralBlock (digits + 1) =
      ("\x7b#if" : Text) ++ ((' ' :: List.replicate (digits + 1) '1') ++
        '\x7d' :: ("x\x7b/if\x7d" : Text)) := by
    simp [numeralBlock]
  have htrim : Text.trim (' ' :: '1' :: List.replicate digits '1') =
      '1' :: List.replicate digits '1' := by
    rw [Text.trim_cons_of_isBlank (by decide)]
    refine Text.trim_of_not_isBlank fun c hc ↦ ?_
    rw [← List.replicate_succ] at hc
    rw [List.eq_of_mem_replicate hc]
    decide
  have hcut : Text.cut? ("\x7b/if\x7d" : Text) ("x\x7b/if\x7d" : Text) = some (['x'], []) := by
    decide +kernel
  rw [readBlock, readCondition, hblock, Text.after?_append]
  simp only [Option.bind_eq_bind, Option.bind_some]
  rw [Text.upTo?_append_cons (by simp)]
  have hspace : isBlank ' ' = true := by decide
  simp only [List.replicate_succ, Option.bind_some, hspace, if_true, htrim, hcut]

theorem blocks_numeralBlock :
    blocks (numeralBlock (digits + 1)) = [⟨List.replicate (digits + 1) '1', ['x']⟩] := by
  have hcons : ∃ cs, numeralBlock (digits + 1) = '\x7b' :: cs := ⟨_, rfl⟩
  obtain ⟨cs, hcs⟩ := hcons
  have hread : readBlock (numeralBlock (digits + 1)) =
      some (⟨List.replicate (digits + 1) '1', ['x']⟩, []) := readBlock_numeralBlock
  rw [hcs] at hread
  rw [blocks, Text.findAll, hcs, Text.pieces_cons_of_some hread (Nat.zero_le _), Text.pieces]
  rfl

end Markup

/-- The source of a page with a condition that is a numeral of so many digits. -/
def numeralPage (digits : Nat) : Text :=
  Text.unlines (Source.sourceLines none [.template [Markup.numeralBlock digits]])

theorem Source.wellFormed_numeralBlock (digits : Nat) :
    (Written.template [Markup.numeralBlock digits]).WellFormed := by
  have hblock : Markup.numeralBlock digits =
      (("\x7b#if " : Text) ++ (List.replicate digits '1' ++ ("\x7dx\x7b/if" : Text))) ++
        ['\x7d'] := by
    simp [Markup.numeralBlock]
  intro line hline
  rw [List.mem_singleton.mp hline]
  refine ⟨by simp [Markup.numeralBlock], ?_⟩
  rw [hblock, Text.trimRight_concat_of_not_isBlank (by decide)]
  rintro ⟨front, hfront⟩
  have hlast := congrArg List.getLast? hfront
  rw [List.getLast?_concat, List.getLast?_append] at hlast
  exact absurd hlast (by simp)

theorem Component.ofSource_numeralPage (file : Text) (digits : Nat) :
    Component.ofSource file (numeralPage digits) =
      { file, fields := [], template := some ⟨1, Markup.numeralBlock digits⟩ } := by
  have hws : ∀ w ∈ [Source.Written.template [Markup.numeralBlock digits]], w.WellFormed := by
    simpa using Source.wellFormed_numeralBlock digits
  have hnone : Source.HeaderFits none := by decide
  obtain ⟨hfields, hbody, hoffset⟩ := Source.extract_written hnone hws
  have htokens := Source.tokensOf_scanFrom_written hws ((Source.headerLines none).length + 1)
  rw [Int.natCast_add, Int.natCast_one] at htokens
  rw [numeralPage, Component.ofSource, hfields, hbody, hoffset,
    Source.scan_unlines (Source.notMem_lineFeed_of_mem_flatMap hws), htokens,
    Source.ofTokens_written]
  rfl

theorem Component.blocks_numeralPage (file : Text) (digits : Nat) :
    (Component.ofSource file (numeralPage (digits + 1))).blocks =
      [⟨List.replicate (digits + 1) '1', ['x']⟩] := by
  have hmarkup : (Component.ofSource file (numeralPage (digits + 1))).blocks =
      Markup.blocks (Markup.lowerEvents
        (Markup.lowerLinks (Markup.fillPlaceholders [] (Markup.numeralBlock (digits + 1))))) := by
    rw [ofSource_numeralPage]
    rfl
  rw [hmarkup, Markup.fillPlaceholders_numeralBlock, Markup.lowerLinks_numeralBlock,
    Markup.lowerEvents_numeralBlock, Markup.blocks_numeralBlock]

theorem Condition.scan_replicate {digits : Nat} (h : Numeral.maxDigits < digits + 1) :
    scan (List.replicate (digits + 1) '1') = .error (.numeral ⟨digits + 1⟩) := by
  have hdigit : isDecimalDigit '1' = true := by decide
  have hblank : isBlank '1' = false := by decide
  have hnumber : number (List.replicate (digits + 1) '1') = .error (.numeral ⟨digits + 1⟩) := by
    simp [number, hdigit, h]
  have hlexeme : lexeme? ('1' :: List.replicate digits '1') = .error (.numeral ⟨digits + 1⟩) := by
    rw [lexeme?, if_pos hdigit, ← List.replicate_succ, hnumber]
    rfl
  rw [scan, List.replicate_succ, scanFrom, if_neg (by simp [hblank]), hlexeme]

theorem Component.generate_numeralPage {digits : Nat} (h : Numeral.maxDigits < digits + 1)
    (file : Text) (mode : ScriptMode) (definitions : List Definition) (withLibrary : Bool) :
    ((Component.ofSource file (numeralPage (digits + 1))).generate
      mode definitions withLibrary).result = .error ⟨digits + 1⟩ := by
  have hscan := Condition.scan_replicate h
  refine (generate_eq _ mode definitions withLibrary).1 _ ?_
  rw [blocks_numeralPage]
  cases htable : (Lowering.tableFrom _ [] _).conditions with
  | error refusal =>
    obtain ⟨b, hb, hrefused⟩ := Lowering.tableFrom_eq_error htable
    rw [List.mem_singleton.mp hb, hscan] at hrefused
    rw [Condition.Error.numeral.inj (Except.error.inj hrefused)]
  | ok table =>
    obtain ⟨-, -, hentered⟩ := Lowering.tableFrom_eq_ok htable
    exact absurd ⟨_, hscan⟩ (hentered _ List.mem_cons_self List.not_mem_nil).not_refused

/-- A page with a condition of one digit more than are read has no program. -/
theorem long_numeral_ends_generation :
    ((Component.ofSource "page.mtm" (numeralPage 4301)).generate .inline [] false).result =
      .error ⟨4301⟩ :=
  Component.generate_numeralPage (by decide) _ _ _ _

end PageCompiler
