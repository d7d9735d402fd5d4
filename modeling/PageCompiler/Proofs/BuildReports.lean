import PageCompiler.Proofs.TemplateMarkers
import PageCompiler.Proofs.WrittenArtifacts

/-!
# What a build reports

A build keeps two accounts of its files: a result for every file, and the findings, in which errors
and warnings are filed by their severity. Errors come from four sides (a source that cannot be read,
a page that is rejected, an artifact that another file owns, and one that cannot be written), and
each of them is entered into both accounts. Here is that the accounts agree. When a build comes to
rest and was not given up, every file has one result, the errors found are those of the files that
failed, one for each, and the warnings found are those about cycles and then those of the pages.

## Severities

Findings are filed by severity, so the accounts can only agree when severities are what they should
be: what rejects a page is an error, and what a page is warned about is a warning. This goes through
all steps of compiling a page and is shown first. After that every entry is of one form, `Enters`: a
result is put down and what it has to report is filed, and `Tallied` is kept.
-/

namespace PageCompiler

open Relation

/-! ## Severities -/

variable {d : Diagnostic} {b : Build}

theorem FrontMatter.severity_of_mem_problems {fields : FrontMatter} {file : Option Text}
    (h : d ∈ fields.problems file) : d.severity = .error := by
  rcases List.mem_append.mp h with hroute | hmode
  · obtain ⟨route, -, hproblem⟩ := Option.bind_eq_some_iff.mp (Option.mem_toList.mp hroute)
    split_ifs at hproblem
    obtain rfl := Option.some.inj hproblem
    rfl
  · obtain ⟨mode, -, hproblem⟩ := Option.bind_eq_some_iff.mp (Option.mem_toList.mp hmode)
    split_ifs at hproblem
    obtain rfl := Option.some.inj hproblem
    rfl

theorem Route.Registry.severity_of_register {r : Registry} {path file : Text}
    (h : (r.register path file).1 = .error d) : d.severity = .error := by
  unfold register at h
  split at h
  · obtain rfl := Except.error.inj h
    rfl
  · dsimp only at h
    split at h
    · split_ifs at h
      split at h
      · obtain rfl := Except.error.inj h
        rfl
      · obtain rfl := Except.error.inj h
        rfl
    · obtain rfl := Except.error.inj h
      rfl
    · cases h

theorem ScriptMode.severity_of_choose {fields : FrontMatter} {preference : Preference} {name : Text}
    {file : Option Text} (h : choose fields preference name file = .error d) :
    d.severity = .error := by
  unfold choose at h
  split at h
  · split_ifs at h
    obtain rfl := Except.error.inj h
    rfl
  · split_ifs at h

namespace Source

variable {E : Type} {file : Text} {locator : Locator E} {events : List Event}

theorem exists_of_locate_eq_error {e : E} (h : (locate file locator events).tokens = .error e) :
    ∃ path line, (locator path line).found = .error e := by
  fun_induction locate file locator events with
  | case1 => cases h
  | case2 line name path _ rest lookup other hfound =>
    obtain rfl := Except.error.inj h
    exact ⟨path, line, hfound⟩
  | case3 line name path _ rest lookup resolved hfound scanned =>
    rename_i ih
    exact ih (eq_error_of_map_eq_error h)
  | case4 t rest hother scanned =>
    rename_i ih
    exact ih (eq_error_of_map_eq_error h)
  | case5 event rest _ _ scanned =>
    rename_i ih
    exact ih h

theorem exists_of_mem_warnings_locate (h : d ∈ (locate file locator events).warnings) :
    ∃ path line, d ∈ (locator path line).warnings := by
  fun_induction locate file locator events with
  | case1 => cases h
  | case2 line name path _ rest lookup other hfound => exact ⟨path, line, h⟩
  | case3 line name path _ rest lookup resolved hfound scanned =>
    rename_i ih
    rcases List.mem_append.mp h with hown | hrest
    · exact ⟨path, line, hown⟩
    · exact ih hrest
  | case4 t rest hother scanned =>
    rename_i ih
    exact ih h
  | case5 event rest _ _ scanned =>
    rename_i ih
    exact ih h

end Source

namespace CompileOptions

variable {options : CompileOptions} {tree : FileTree} {file path : Text} {line : Int}
variable {d : Diagnostic}

/-- A missing import is an error where imports are strict, and a warning where they are not. -/
theorem severity_of_locator :
    ((options.locator tree file path line).found = .error (.rejected d) → d.severity = .error) ∧
      (d ∈ (options.locator tree file path line).warnings → d.severity = .warning) := by
  unfold locator
  dsimp only
  split
  · simp
  · split
    · simp
    · split
      · simp only [Except.error.injEq, CompileError.rejected.injEq, List.not_mem_nil]
        constructor
        · rintro rfl
          rfl
        · intro h
          exact h.elim
      · simp only [reduceCtorEq, List.mem_singleton]
        constructor
        · intro h
          exact h.elim
        · rintro rfl
          rfl
    · simp

end CompileOptions

namespace Compile

variable {options : CompileOptions} {tree : FileTree} {registry : Route.Registry}
variable {file text : Text} {d : Diagnostic} {page : Compiled}

theorem severity_of_read_eq_error {parts : FrontMatter.Extracted}
    (h : (Component.read file (options.locator tree file) parts).component =
      .error (.rejected d)) : d.severity = .error := by
  rw [Component.read] at h
  split at h
  · rename_i e hscanned
    obtain rfl := Except.error.inj h
    obtain ⟨path, line, hfound⟩ := Source.exists_of_locate_eq_error hscanned
    exact CompileOptions.severity_of_locator.1 hfound
  · cases h

theorem severity_of_mem_warnings_read {parts : FrontMatter.Extracted}
    (h : d ∈ (Component.read file (options.locator tree file) parts).warnings) :
    d.severity = .warning := by
  have hscanned : d ∈ (Source.tokenize file parts.bodyOffset (options.locator tree file)
      parts.body).warnings := by
    rw [Component.read] at h
    split at h
    · exact h
    · exact h
  obtain ⟨path, line, hmem⟩ := Source.exists_of_mem_warnings_locate hscanned
  exact CompileOptions.severity_of_locator.2 hmem

theorem severity_of_mem_warnings_generate {c : Component} {mode : ScriptMode}
    {known : List Definition} {withLibrary : Bool} {generated : Generated}
    (hresult : (c.generate mode known withLibrary).result = .ok generated)
    (h : d ∈ (c.generate mode known withLibrary).warnings) : d.severity = .warning := by
  rw [Component.warnings_of_generate hresult] at h
  rcases List.mem_append.mp h with htable | hhandlers
  · rcases Lowering.warning_cases htable with ⟨message, rfl⟩ | ⟨condition, e, hdiagnostic⟩
    · rfl
    · exact e.severity_of_diagnostic hdiagnostic
  · obtain ⟨b, -, rfl⟩ := List.mem_map.mp hhandlers
    rfl

theorem severity_of_finish {tokens : List Source.Token} {warnings : List Diagnostic} {c : Component}
    {mode : ScriptMode} (hwarnings : ∀ d ∈ warnings, d.severity = .warning)
    (h : (finish options tree tokens warnings c mode).1 = .ok page) :
    ∀ d ∈ page.warnings, d.severity = .warning := by
  intro d hd
  rw [finish] at h
  split at h
  · cases h
  · simp only [generate] at h
    split at h
    · cases h
    · rename_i generated hgenerated
      obtain rfl := Except.ok.inj h
      rcases List.mem_append.mp hd with hbefore | htemplate
      · exact hwarnings d hbefore
      · exact severity_of_mem_warnings_generate hgenerated htemplate

theorem severity_of_rejected
    (h : (source options tree registry file text).result = .error (.rejected d)) :
    d.severity = .error := by
  unfold source at h
  dsimp only at h
  split at h
  · rename_i problem others hproblems
    obtain rfl := CompileError.rejected.inj (Except.error.inj h)
    apply FrontMatter.severity_of_mem_problems
    rw [hproblems]
    exact List.mem_cons_self
  · split at h
    · rename_i e hread
      obtain rfl := Except.error.inj h
      exact severity_of_read_eq_error hread
    · rename_i c hread
      rw [component] at h
      split at h
      · rename_i problem hclaim
        obtain rfl := CompileError.rejected.inj (Except.error.inj h)
        unfold claimRoute at hclaim
        split at hclaim
        · cases hclaim
        · exact Route.Registry.severity_of_register
            (eq_error_of_map_eq_error (congrArg Prod.fst hclaim))
      · split at h
        · rename_i problem hmode
          obtain rfl := CompileError.rejected.inj (Except.error.inj h)
          exact ScriptMode.severity_of_choose hmode
        · exact absurd h (finish_ne_rejected _ _ _ _ _ _ _)

theorem severity_of_mem_warnings
    (h : (source options tree registry file text).result = .ok page) :
    ∀ d ∈ page.warnings, d.severity = .warning := by
  unfold source at h
  dsimp only at h
  split at h
  · cases h
  · split at h
    · cases h
    · rw [component] at h
      split at h
      · cases h
      · split at h
        · cases h
        · exact severity_of_finish (fun d ↦ severity_of_mem_warnings_read) h

end Compile

/-! ## Two accounts -/

namespace Findings

variable {found : Findings} {d : Diagnostic} {ds : List Diagnostic}

theorem addAll_eq (found : Findings) (ds : List Diagnostic) : found.addAll ds =
    ⟨found.errors ++ ds.filter (!·.isWarning), found.warnings ++ ds.filter (·.isWarning)⟩ := by
  induction ds generalizing found with
  | nil => simp [addAll]
  | cons d rest ih =>
    rw [addAll, List.foldl_cons, ← addAll, ih, add]
    cases hd : d.isWarning <;> simp [hd]

theorem addAll_of_errors (h : ∀ d ∈ ds, d.severity = .error) :
    found.addAll ds = ⟨found.errors ++ ds, found.warnings⟩ := by
  have herror : ∀ d ∈ ds, d.isWarning = false := by
    intro d hd
    rw [Diagnostic.isWarning, h d hd]
    rfl
  rw [addAll_eq, List.filter_eq_self.mpr (by simpa using herror),
    List.filter_eq_nil_iff.mpr (by simpa using herror), List.append_nil]

theorem addAll_of_warnings (h : ∀ d ∈ ds, d.severity = .warning) :
    found.addAll ds = ⟨found.errors, found.warnings ++ ds⟩ := by
  have hwarning : ∀ d ∈ ds, d.isWarning = true := by
    intro d hd
    rw [Diagnostic.isWarning, h d hd]
    rfl
  rw [addAll_eq, List.filter_eq_self.mpr hwarning,
    List.filter_eq_nil_iff.mpr (by simpa using hwarning), List.append_nil]

end Findings

/-- What a result has to be: there is a page and no error, or there is one error, and warnings are
warnings. -/
structure FileResult.Settled (r : FileResult) : Prop where
  /-- A file without an error has a page, and otherwise there is one error. -/
  outcome : r.page.isSome = true ∧ r.errors = [] ∨ ∃ d, r.errors = [d] ∧ d.severity = .error
  warnings : ∀ d ∈ r.warnings, d.severity = .warning

namespace FileResult.Settled

variable {r : FileResult}

theorem errors_of_failure (h : r.Settled) (hfailed : r.success = false) :
    ∃ d, r.errors = [d] ∧ d.severity = .error := by
  rcases h.outcome with ⟨hpage, hnone⟩ | herror
  · rw [FileResult.success, hpage, hnone] at hfailed
    cases hfailed
  · exact herror

theorem severity_of_mem_errors (h : r.Settled) : ∀ d ∈ r.errors, d.severity = .error := by
  intro d hd
  rcases h.outcome with ⟨-, hnone⟩ | ⟨e, herrors, hseverity⟩
  · rw [hnone] at hd
    cases hd
  · rw [herrors] at hd
    rw [List.mem_singleton.mp hd]
    exact hseverity

end FileResult.Settled

theorem FileResult.errors_of_success {r : FileResult} (h : r.success = true) : r.errors = [] := by
  rw [FileResult.success, Bool.and_eq_true] at h
  exact List.isEmpty_iff.mp h.2

namespace Build

/-- Whether a build differs from an earlier one by the result of a file and by what that result has
to report. -/
def Enters (b : Build) (file : Text) (after : Build) : Prop :=
  ∃ r : FileResult, r.Settled ∧ after.results = OrderedMap.put file r b.results ∧
    after.findings = (b.findings.addAll r.warnings).addAll r.errors

/-- Whether the findings of a build are some warnings at the beginning and what its results have to
report. -/
structure Tallied (first : List Diagnostic) (b : Build) : Prop where
  settled : ∀ file r, (file, r) ∈ b.results → r.Settled
  errors : b.findings.errors = b.results.flatMap fun entry ↦ entry.2.errors
  warnings : b.findings.warnings = first ++ b.results.flatMap fun entry ↦ entry.2.warnings

/-- **What is entered for a new file is entered into both accounts.** -/
theorem Tallied.enters {first : List Diagnostic} {after : Build} {file : Text} (h : b.Tallied first)
    (hnew : file ∉ OrderedMap.keys b.results) (henters : b.Enters file after) :
    after.Tallied first ∧ OrderedMap.keys after.results = OrderedMap.keys b.results ++ [file] := by
  obtain ⟨r, hsettled, hresults, hfindings⟩ := henters
  rw [OrderedMap.put_of_notMem hnew] at hresults
  rw [Findings.addAll_of_warnings hsettled.warnings,
    Findings.addAll_of_errors hsettled.severity_of_mem_errors] at hfindings
  refine ⟨⟨fun f r' hmem ↦ ?_, ?_, ?_⟩, ?_⟩
  · rw [hresults] at hmem
    rcases List.mem_append.mp hmem with hmem | hlast
    · exact h.settled f r' hmem
    · obtain ⟨-, rfl⟩ := Prod.mk.inj (List.mem_singleton.mp hlast)
      exact hsettled
  · rw [hresults, hfindings, h.errors]
    simp
  · rw [hresults, hfindings, h.warnings]
    simp
  · rw [hresults, OrderedMap.keys_append]
    rfl

/-! ## Reading -/

/-- What holds once some files with names of their own were read, or found to be unreadable. -/
structure HasReported (files : List Path) (b : Build) (sources : OrderedMap Text) : Prop where
  tallied : b.Tallied []
  unwarned : b.findings.warnings = []
  /-- Every file was read or has a result. -/
  each : (OrderedMap.keys b.results ++ OrderedMap.keys sources).Perm (files.map Path.toText)

theorem HasReported.readSource {files : List Path} {sources : OrderedMap Text}
    (h : HasReported files b sources) {path : Path} (hnew : path.toText ∉ files.map Path.toText)
    (hnone : (readSource (b, sources) path).1.failure = none) :
    HasReported (files ++ [path]) (Build.readSource (b, sources) path).1
      (Build.readSource (b, sources) path).2 := by
  obtain ⟨hresults, hsources⟩ : path.toText ∉ OrderedMap.keys b.results ∧
      path.toText ∉ OrderedMap.keys sources := by
    rwa [← h.each.mem_iff, List.mem_append, not_or] at hnew
  have hfiles : (files ++ [path]).map Path.toText = files.map Path.toText ++ [path.toText] :=
    List.map_append
  rw [Build.readSource] at hnone ⊢
  dsimp only at hnone ⊢
  split at hnone
  · rename_i source hsource
    refine ⟨h.tallied, h.unwarned, ?_⟩
    rw [OrderedMap.put_of_notMem hsources, OrderedMap.keys_append, ← List.append_assoc, hfiles]
    exact h.each.append_right _
  · cases hnone
  · rename_i e _ hunreadable
    have henters : b.Enters path.toText
        { b with
          findings := b.findings.add (unreadable path.toText e)
          results := OrderedMap.put path.toText
            { file := path.toText, errors := [unreadable path.toText e] } b.results } :=
      ⟨_, ⟨.inr ⟨_, rfl, rfl⟩, fun d hd ↦ by cases hd⟩, rfl, rfl⟩
    obtain ⟨htallied, hkeys⟩ := h.tallied.enters hresults henters
    refine ⟨htallied, h.unwarned, ?_⟩
    rw [hkeys, hfiles, List.append_assoc]
    exact (List.perm_append_comm.append_left _).trans
      ((List.append_assoc _ _ _).symm ▸ h.each.append_right _)

theorem failure_of_readSource {state : Build × OrderedMap Text} {path : Path}
    (h : (readSource state path).1.failure = none) : state.1.failure = none := by
  rw [readSource] at h
  dsimp only at h
  split at h
  · exact h
  · cases h
  · exact h

theorem hasReported_foldl {tree : FileTree} {files : List Path}
    (hdistinct : (files.map Path.toText).Nodup)
    (hnone : (files.foldl readSource ({ tree }, [])).1.failure = none) :
    HasReported files (files.foldl readSource ({ tree }, [])).1
      (files.foldl readSource ({ tree }, [])).2 := by
  induction files using List.reverseRecOn with
  | nil => exact ⟨⟨fun _ _ hmem ↦ absurd hmem List.not_mem_nil, rfl, rfl⟩, rfl, .refl _⟩
  | append_singleton files path ih =>
    rw [List.map_append, List.nodup_append] at hdistinct
    obtain ⟨hfiles, -, hnew⟩ := hdistinct
    rw [List.foldl_append] at hnone ⊢
    refine (ih hfiles (failure_of_readSource hnone)).readSource (fun hmem ↦ ?_) hnone
    exact hnew _ hmem _ (List.mem_singleton_self _) rfl

/-! ## Recording -/

/-- What holds of every outcome of compiling a file: the page is of that file and warned about by
warnings, and what rejects it is an error. -/
def Marked (file : Text) : Except CompileError Compiled → Prop
  | .ok page => page.file = file ∧ ∀ d ∈ page.warnings, d.severity = .warning
  | .error (.rejected d) => d.severity = .error
  | .error (.numeral _) => True
  | .error (.file _) => True

theorem marked_compileOne (config : BuildConfig) (sources : OrderedMap Text) (b : Build)
    (file : Text) : Marked file (compileOne config sources b file).2 := by
  rcases hresult : (compileOne config sources b file).2 with (d | e | e) | page
  · exact Compile.severity_of_rejected hresult
  · trivial
  · trivial
  · exact ⟨file_of_compileOne hresult, Compile.severity_of_mem_warnings hresult⟩

/-- Unless it gives the build up, recording enters the file into both accounts. -/
theorem Recorded.enters {config : BuildConfig} {write : Bool} {after : Build} {file : Text}
    {result : Except CompileError Compiled} (h : Recorded config write b file result after)
    (hmarked : Marked file result) (hnone : after.failure = none) : b.Enters file after := by
  cases h with
  | rejected d => exact ⟨_, ⟨.inr ⟨d, rfl, hmarked⟩, fun d hd ↦ by cases hd⟩, rfl, rfl⟩
  | abandoned e _ _ => cases hnone
  | clash _ =>
    obtain ⟨rfl, hwarnings⟩ := hmarked
    refine ⟨_, ?_, OrderedMap.put_put _ _ _ _, rfl⟩
    exact ⟨.inr ⟨_, rfl, rfl⟩, hwarnings⟩
  | unasked _ _ =>
    obtain ⟨rfl, hwarnings⟩ := hmarked
    refine ⟨_, ?_, rfl, rfl⟩
    exact ⟨.inl ⟨rfl, rfl⟩, hwarnings⟩
  | written _ _ _ =>
    obtain ⟨rfl, hwarnings⟩ := hmarked
    refine ⟨_, ?_, rfl, rfl⟩
    exact ⟨.inl ⟨rfl, rfl⟩, hwarnings⟩
  | unwritten _ _ _ _ =>
    obtain ⟨rfl, hwarnings⟩ := hmarked
    refine ⟨_, ?_, OrderedMap.put_put _ _ _ _, rfl⟩
    exact ⟨.inr ⟨_, rfl, rfl⟩, hwarnings⟩
  | nowhere _ _ _ _ => cases hnone

theorem enters_recordNext {config : BuildConfig} {write : Bool} {g : ImportGraph} {file : Text}
    {result : Except CompileError Compiled} (hmarked : Marked file result)
    (hnone : (recordNext config write g b file result).failure = none) :
    b.Enters file (recordNext config write g b file result) := by
  have hrecorded := recorded_record config write b file result
  rw [recordNext] at hnone ⊢
  split_ifs at hnone ⊢ with hfailure
  · exact hrecorded.enters hmarked hnone
  · obtain ⟨r, hsettled, hresults, hfindings⟩ := hrecorded.enters hmarked hnone
    exact ⟨r, hsettled, hresults, hfindings⟩

/-! ## Runs -/

namespace Loop

variable {config : BuildConfig} {write : Bool} {tree : FileTree} {files : List Path}
variable (loop : Loop config tree files) {stage : Stage}

def cycleWarnings : List Diagnostic := loop.graph.untangle.2.map ImportGraph.cycleWarning

theorem marked_of_reaches (h : loop.Reaches write stage) :
    ∀ file result, (file, result) ∈ stage.ended → Marked file result := by
  induction h with
  | refl => exact fun _ _ hmem ↦ absurd hmem List.not_mem_nil
  | tail _ hmove ih =>
    intro file result hmem
    rcases Move.mem_ended hmove hmem with hbefore | rfl
    · exact ih file result hbefore
    · exact marked_compileOne config loop.sources _ file

theorem hasReported (hdistinct : (files.map Path.toText).Nodup) :
    HasReported files loop.read loop.sources := by
  have h := @hasReported_foldl tree files hdistinct
  rw [loop.read_eq] at h
  exact h loop.failure_eq

theorem tallied_start (hdistinct : (files.map Path.toText).Nodup) :
    loop.start.build.Tallied loop.cycleWarnings := by
  have hread := loop.hasReported hdistinct
  have hcycles : ∀ d ∈ loop.cycleWarnings, d.severity = .warning := by
    intro d hd
    obtain ⟨cycle, -, rfl⟩ := List.mem_map.mp hd
    rfl
  have hfindings : loop.start.build.findings = ⟨loop.read.findings.errors, loop.cycleWarnings⟩ := by
    refine (Findings.addAll_of_warnings hcycles).trans ?_
    rw [hread.unwarned, List.nil_append]
  have hnone : (loop.read.results.flatMap fun entry ↦ entry.2.warnings) = [] := by
    rw [← List.nil_append (List.flatMap _ _), ← hread.tallied.warnings, hread.unwarned]
  refine ⟨hread.tallied.settled, ?_, ?_⟩
  · rw [hfindings]
    exact hread.tallied.errors
  · rw [hfindings]
    exact ((congrArg (loop.cycleWarnings ++ ·) hnone).trans (List.append_nil _)).symm

/-- At every stage of a run the accounts agree, and the files that have results are those that could
not be read and those that are recorded. -/
theorem tallied_of_reaches (hdistinct : (files.map Path.toText).Nodup)
    (h : loop.Reaches write stage) (hnone : stage.build.failure = none) :
    stage.build.Tallied loop.cycleWarnings ∧ OrderedMap.keys stage.build.results =
      OrderedMap.keys loop.read.results ++ stage.build.schedule.recorded := by
  induction h with
  | refl => exact ⟨loop.tallied_start hdistinct, (List.append_nil _).symm⟩
  | @tail stage next hreach hmove ih =>
    obtain ⟨htallied, hkeys⟩ := ih hmove.failure_eq_none
    cases hmove with
    | submit _ _ => exact ⟨⟨htallied.settled, htallied.errors, htallied.warnings⟩, hkeys⟩
    | compile _ _ _ => exact ⟨⟨htallied.settled, htallied.errors, htallied.warnings⟩, hkeys⟩
    | @record b front back file result _ =>
      have hsound := loop.sound_of_reaches hreach
      have hmem : (file, result) ∈ front ++ (file, result) :: back := by simp
      have hmarked := loop.marked_of_reaches hreach file result hmem
      have hown : ∀ page, result = .ok page → page.file = file := by
        rintro page rfl
        exact hmarked.1
      have hpending : file ∈ b.schedule.pending :=
        hsound.pending file (OrderedMap.mem_keys.mpr ⟨result, hmem⟩)
      -- A file that can be read has no result before it is recorded.
      have hnew : file ∉ OrderedMap.keys b.results := by
        rw [hkeys, List.mem_append, not_or]
        refine ⟨fun hunread ↦ ?_, hsound.schedule.notMem_recorded hpending⟩
        have hsource : file ∈ OrderedMap.keys loop.sources :=
          loop.mem_files_iff_mem_sources.mp (hsound.schedule.known file
            (List.mem_append_right _ (hsound.schedule.mem_order_iff.mpr (.inr hpending))))
        have hnodup := (loop.hasReported hdistinct).each.nodup_iff.mpr hdistinct
        exact (List.nodup_append.mp hnodup).2.2 file hunread file hsource rfl
      obtain ⟨hnext, hmore⟩ := htallied.enters hnew (enters_recordNext hmarked hnone)
      rcases recordNext_cases config write loop.kept b hown with ⟨-, hschedule, -⟩ | ⟨hgiven, -⟩
      · refine ⟨hnext, ?_⟩
        rw [hmore, hkeys, hschedule, List.append_assoc]
        rfl
      · exact absurd hnone hgiven

theorem recorded_perm (h : loop.Reaches write stage)
    (hrest : ¬ ∃ next, loop.Step write stage next) (hnone : stage.build.failure = none) :
    stage.build.schedule.recorded.Perm (OrderedMap.keys loop.sources) := by
  have hsound := loop.sound_of_reaches h
  refine (List.perm_ext_iff_of_nodup (loop.nodup_recorded h) loop.hasRead.nodup_sources).mpr
    fun file ↦ ?_
  rw [← loop.mem_files_iff_mem_sources]
  constructor
  · intro hrecorded
    exact hsound.schedule.known file
      (List.mem_append_right _ (hsound.schedule.mem_order_iff.mpr (.inl hrecorded)))
  · intro hfile
    by_contra hunrecorded
    exact hrest ((exists_move_iff loop.nodup_kept loop.acyclic hsound).mpr
      ⟨hnone, file, hfile, hunrecorded⟩)

end Loop

/-! ## The report of a build -/

/-- What a build reports on its files, given the warnings about cycles. -/
structure Reported (files : List Path) (cycles : List Diagnostic) (b : Build) : Prop where
  /-- Every file has one result. -/
  each : (OrderedMap.keys b.results).Perm (files.map Path.toText)
  /-- A file that succeeded has no error. -/
  succeeded : ∀ file r, (file, r) ∈ b.results → r.success = true → r.errors = []
  /-- A file that failed has one error. -/
  failed : ∀ file r, (file, r) ∈ b.results → r.success = false →
    ∃ d, r.errors = [d] ∧ d.severity = .error
  /-- The errors are those of the files that failed. -/
  errors : b.findings.errors =
    (b.results.filter fun entry ↦ !entry.2.success).flatMap fun entry ↦ entry.2.errors
  /-- They are errors, and as many as there are files that failed. -/
  counted : (∀ d ∈ b.findings.errors, d.severity = .error) ∧
    b.findings.errors.length = b.failed.length
  /-- The build succeeds exactly when no file failed. -/
  success : b.success = true ↔ b.failed = []
  /-- The counts of the summary add up. -/
  summary : ∃ good bad : Nat, OrderedMap.get? b.summary "succeeded" = some (.int good) ∧
    OrderedMap.get? b.summary "failed" = some (.int bad) ∧
    OrderedMap.get? b.summary "files" = some (.int (good + bad))
  /-- The warnings are those about cycles and those of the pages, in the order of the results. -/
  warnings : b.findings.warnings = cycles ++ b.results.flatMap fun entry ↦ entry.2.warnings

namespace Tallied

variable {first : List Diagnostic} {b : Build}

theorem errors_eq (h : b.Tallied first) : b.findings.errors =
    (b.results.filter fun entry ↦ !entry.2.success).flatMap fun entry ↦ entry.2.errors := by
  rw [h.errors]
  generalize b.results = results
  induction results with
  | nil => rfl
  | cons entry rest ih =>
    rw [List.flatMap_cons, ih, List.filter_cons]
    cases hsuccess : entry.2.success with
    | true => simp [FileResult.errors_of_success hsuccess]
    | false => simp

theorem severity_of_mem_errors (h : b.Tallied first) :
    ∀ d ∈ b.findings.errors, d.severity = .error := by
  intro d hd
  rw [h.errors] at hd
  obtain ⟨⟨file, r⟩, hmem, hd⟩ := List.mem_flatMap.mp hd
  exact (h.settled file r hmem).severity_of_mem_errors d hd

theorem length_errors (h : b.Tallied first) : b.findings.errors.length = b.failed.length := by
  have hone : ∀ entry ∈ b.results.filter fun entry ↦ !entry.2.success,
      entry.2.errors.length = 1 := by
    rintro ⟨file, r⟩ hmem
    obtain ⟨hmem, hfailed⟩ := List.mem_filter.mp hmem
    obtain ⟨d, herrors, -⟩ := (h.settled file r hmem).errors_of_failure (by simpa using hfailed)
    rw [herrors]
    rfl
  rw [h.errors_eq, failed, List.length_map, List.length_flatMap, List.map_congr_left hone]
  simp

end Tallied

theorem length_results (b : Build) :
    b.results.length = b.succeeded.length + b.failed.length := by
  rw [succeeded, failed, List.length_map, List.length_map]
  exact List.length_eq_length_filter_add _

theorem get?_summary (b : Build) :
    OrderedMap.get? b.summary "succeeded" = some (.int b.succeeded.length) ∧
      OrderedMap.get? b.summary "failed" = some (.int b.failed.length) ∧
      OrderedMap.get? b.summary "files" = some (.int b.results.length) := ⟨rfl, rfl, rfl⟩

theorem Tallied.reported {cycles : List Diagnostic} (h : b.Tallied cycles) {files : List Path}
    (heach : (OrderedMap.keys b.results).Perm (files.map Path.toText)) :
    b.Reported files cycles where
  each := heach
  succeeded _ _ _ := FileResult.errors_of_success
  failed file r hmem := (h.settled file r hmem).errors_of_failure
  errors := h.errors_eq
  counted := ⟨h.severity_of_mem_errors, h.length_errors⟩
  success := by
    rw [Build.success, Bool.and_eq_true, List.isEmpty_iff, List.isEmpty_iff]
    constructor
    · exact And.left
    · intro hfailed
      refine ⟨hfailed, List.length_eq_zero_iff.mp ?_⟩
      rw [h.length_errors, hfailed]
      rfl
  summary := by
    obtain ⟨hgood, hbad, hfiles⟩ := b.get?_summary
    refine ⟨_, _, hgood, hbad, ?_⟩
    rw [hfiles, b.length_results, Nat.cast_add]
  warnings := h.warnings

/-- **A build reports every problem once.** Where files have names of their own, a build that comes
to rest without being given up has one result for every file, in whatever order compilations have
ended. A failed file has one error and any other none; the errors found are exactly these, and the
warnings found are those about cycles and those of the pages. The same holds of the batches that are
run. -/
theorem every_problem_reported_once {config : BuildConfig} {write : Bool} {tree : FileTree}
    {files : List Path} (hdistinct : (files.map Path.toText).Nodup) :
    (∀ (loop : Loop config tree files) (stage : Stage), loop.Reaches write stage →
      (¬ ∃ next, loop.Step write stage next) → stage.build.failure = none →
        stage.build.Reported files loop.cycleWarnings) ∧
    ((run config write tree files).failure = none → ∃ loop : Loop config tree files,
      (run config write tree files).Reported files loop.cycleWarnings) := by
  have hstage : ∀ (loop : Loop config tree files) (stage : Stage), loop.Reaches write stage →
      (¬ ∃ next, loop.Step write stage next) → stage.build.failure = none →
        stage.build.Tallied loop.cycleWarnings ∧
          (OrderedMap.keys stage.build.results).Perm (files.map Path.toText) := by
    intro loop stage hreach hrest hnone
    obtain ⟨htallied, hkeys⟩ := loop.tallied_of_reaches hdistinct hreach hnone
    refine ⟨htallied, ?_⟩
    rw [hkeys]
    exact ((loop.recorded_perm hreach hrest hnone).append_left _).trans
      (loop.hasReported hdistinct).each
  constructor
  · intro loop stage hreach hrest hnone
    obtain ⟨htallied, heach⟩ := hstage loop stage hreach hrest hnone
    exact htallied.reported heach
  · intro hnone
    obtain ⟨loop, stage, hreach, hrest, hnone, hrun⟩ := exists_stage_of_run hnone
    obtain ⟨htallied, heach⟩ := hstage loop stage hreach hrest hnone
    -- Only a note comes after the run.
    have hsaid : (stage.build.say stage.build.endNote).Tallied loop.cycleWarnings :=
      ⟨htallied.settled, htallied.errors, htallied.warnings⟩
    rw [hrun]
    exact ⟨loop, hsaid.reported heach⟩

/-- Two pages that import each other, of which the second has a route that is none. -/
def pagesInCycle : FileTree where
  nodes :=
    [(["a.mtm"], .file (Utf8.encode "import B from \"./b.mtm\"\n<template>x</template>")),
     (["b.mtm"], .file (Utf8.encode "---\nroute: b\n---\nimport A from \"./a.mtm\""))]

def pagesInCyclePaths : List Path := [Path.ofText "a.mtm", Path.ofText "b.mtm", Path.ofText "c.mtm"]

/-- A page that cannot be read and one that is rejected are reported beside a cycle. -/
theorem failed_pages_in_cycle_reported :
    (∃ (loop : Loop {} pagesInCycle pagesInCyclePaths) (stage : Stage), loop.Reaches true stage ∧
      (¬ ∃ next, loop.Step true stage next) ∧ stage.build.failure = none ∧
      stage.build.failed = [("c.mtm" : Text), ("b.mtm" : Text)] ∧
      stage.build.succeeded = [("a.mtm" : Text)] ∧
      stage.build.findings.warnings = [ImportGraph.cycleWarning ["a.mtm", "b.mtm", "a.mtm"]] ∧
      stage.build.Reported pagesInCyclePaths loop.cycleWarnings) ∧
    ∃ loop : Loop {} pagesInCycle pagesInCyclePaths,
      (run {} true pagesInCycle pagesInCyclePaths).Reported pagesInCyclePaths
        loop.cycleWarnings := by
  have hdistinct : (pagesInCyclePaths.map Path.toText).Nodup := by decide +kernel
  have hresult : (run {} true pagesInCycle pagesInCyclePaths).failure = none ∧
      (run {} true pagesInCycle pagesInCyclePaths).failed =
        [("c.mtm" : Text), ("b.mtm" : Text)] ∧
      (run {} true pagesInCycle pagesInCyclePaths).succeeded = [("a.mtm" : Text)] ∧
      (run {} true pagesInCycle pagesInCyclePaths).findings.warnings =
        [ImportGraph.cycleWarning ["a.mtm", "b.mtm", "a.mtm"]] := by decide +kernel
  obtain ⟨hnone, hfailed, hsucceeded, hwarnings⟩ := hresult
  have hreported := @every_problem_reported_once {} true pagesInCycle pagesInCyclePaths hdistinct
  refine ⟨?_, hreported.2 hnone⟩
  obtain ⟨loop, stage, hreach, hrest, hnone', hrun⟩ := exists_stage_of_run hnone
  rw [hrun] at hfailed hsucceeded hwarnings
  exact ⟨loop, stage, hreach, hrest, hnone', hfailed, hsucceeded, hwarnings,
    hreported.1 loop stage hreach hrest hnone'⟩

end Build

end PageCompiler
