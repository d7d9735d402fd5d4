import Mathlib.Data.List.Induction
import PageCompiler.Build.Project
import PageCompiler.Proofs.ImportCycles
import PageCompiler.Proofs.Texts

/-!
# The steps of a build

What each step of a build changes, and what it leaves alone: reading the sources, finding out which
of them import which, compiling a file and recording what came of it. Recording gives a file one
result and leaves the schedule to the caller, and it gives the build up in three cases only, which
`Build.GivesUp` lists. All that it can do is told by `Build.Recorded`, one case for each way through
it, and what recording keeps is shown by these cases.
-/

namespace PageCompiler

/-! ## Steps with notes -/

namespace Noted

variable {E α β γ : Type} {step : α → Noted E β}

theorem each_cons_eq_ok {a : α} {rest : List α} {bs : List β}
    (h : (each step (a :: rest)).1 = .ok bs) :
    ∃ b more, bs = b :: more ∧ (step a).1 = .ok b ∧ (each step rest).1 = .ok more := by
  rw [each] at h
  split at h
  · exact nomatch h
  · next b notes hstep =>
    obtain ⟨more, hmore, rfl⟩ := exists_of_map_eq_ok h
    exact ⟨b, more, rfl, by rw [hstep], hmore⟩

theorem exists_of_mem_each {as : List α} {bs : List β} (h : (each step as).1 = .ok bs) {b : β}
    (hb : b ∈ bs) : ∃ a ∈ as, (step a).1 = .ok b := by
  induction as generalizing bs with
  | nil =>
    obtain rfl : [] = bs := Except.ok.inj h
    exact absurd hb List.not_mem_nil
  | cons a rest ih =>
    obtain ⟨first, more, rfl, hfirst, hmore⟩ := each_cons_eq_ok h
    rcases List.mem_cons.mp hb with rfl | hb
    · exact ⟨a, List.mem_cons_self, hfirst⟩
    · obtain ⟨a', hmem, hstep⟩ := ih hmore hb
      exact ⟨a', List.mem_cons_of_mem _ hmem, hstep⟩

/-- What every step passes on from its argument to its result, the lists have in common. -/
theorem map_each {as : List α} {bs : List β} {f : α → γ} {f' : β → γ}
    (hstep : ∀ a b, (step a).1 = .ok b → f' b = f a) (h : (each step as).1 = .ok bs) :
    bs.map f' = as.map f := by
  induction as generalizing bs with
  | nil =>
    obtain rfl : [] = bs := Except.ok.inj h
    rfl
  | cons a rest ih =>
    obtain ⟨first, more, rfl, hfirst, hmore⟩ := each_cons_eq_ok h
    rw [List.map_cons, List.map_cons, hstep a first hfirst, ih hmore]

end Noted

/-! ## Dependencies -/

namespace Dependencies

variable {rules : ImportRules} {tree : FileTree} {names : List Text} {file : Text}

theorem mem_of_target? {resolution : Resolution} {found : Text}
    (h : target? tree names file resolution = some found) : found ∈ names := by
  cases resolution with
  | file place searched =>
    obtain ⟨hfind, -⟩ := Option.filter_eq_some_iff.mp h
    exact List.mem_reverse.mp (List.mem_of_find?_eq_some hfind)
  | missing => exact nomatch h
  | package => exact nomatch h

theorem mem_of_ofImport {path found : Text}
    (h : (ofImport rules tree names file path).1 = .ok (some found)) : found ∈ names := by
  rw [ofImport] at h
  split at h
  · exact nomatch h
  · exact mem_of_target? (Except.ok.inj h)

theorem mem_of_ofFile {source : Text} {used : List Text}
    (h : (ofFile rules tree names file source).1 = .ok used) {found : Text}
    (hfound : found ∈ used) : found ∈ names := by
  rw [ofFile] at h
  obtain ⟨targets, htargets, rfl⟩ := exists_of_map_eq_ok h
  rw [Text.sort, List.mem_mergeSort, mem_distinct, List.mem_filterMap] at hfound
  obtain ⟨target, htarget, rfl⟩ := hfound
  obtain ⟨_, -, hstep⟩ := Noted.exists_of_mem_each htargets htarget
  exact mem_of_ofImport hstep

theorem graph_eq_ok {sources : OrderedMap Text} {g : ImportGraph}
    (h : (graph rules tree sources).1 = .ok g) :
    OrderedMap.keys g = OrderedMap.keys sources ∧
      ∀ importer file, g.Uses importer file → file ∈ OrderedMap.keys sources := by
  rw [graph] at h
  split at h
  · exact nomatch h
  · refine ⟨Noted.map_each (fun entry imported hstep ↦ ?_) h, fun importer file huses ↦ ?_⟩
    · obtain ⟨used, -, rfl⟩ := exists_of_map_eq_ok hstep
      rfl
    · obtain ⟨used, hmem, hfile⟩ := ImportGraph.mem_of_uses huses
      obtain ⟨entry, -, hstep⟩ := Noted.exists_of_mem_each h hmem
      obtain ⟨used', hused, heq⟩ := exists_of_map_eq_ok hstep
      obtain ⟨-, rfl⟩ := Prod.mk.inj heq
      exact mem_of_ofFile hused hfile

end Dependencies

/-! ## Sources -/

/-- Whether a file is named among the paths and can be read. -/
def FileTree.Readable (tree : FileTree) (files : List Path) (file : Text) : Prop :=
  ∃ path ∈ files, path.toText = file ∧ ∃ source, tree.readText path = .ok source

namespace Build

/-- What holds once some files were read, or found to be unreadable. -/
structure HasRead (tree : FileTree) (files : List Path) (b : Build) (sources : OrderedMap Text) :
    Prop where
  tree_eq : b.tree = tree
  schedule_eq : b.schedule = {}
  nodup_sources : (OrderedMap.keys sources).Nodup
  mem_sources : ∀ file, file ∈ OrderedMap.keys sources ↔ tree.Readable files file
  nodup_results : (OrderedMap.keys b.results).Nodup

theorem hasRead_readSource {tree : FileTree} {files : List Path} {b : Build}
    {sources : OrderedMap Text} (h : HasRead tree files b sources) (path : Path) :
    HasRead tree (files ++ [path]) (readSource (b, sources) path).1
      (readSource (b, sources) path).2 := by
  have hreadable : ∀ file, tree.Readable (files ++ [path]) file ↔
      tree.Readable files file ∨
        path.toText = file ∧ ∃ source, tree.readText path = .ok source := by
    intro file
    simp only [FileTree.Readable, List.mem_append, List.mem_singleton, or_and_right, exists_or,
      exists_eq_left]
  rw [readSource, h.tree_eq]
  split
  · next source hsource =>
    refine ⟨h.tree_eq, h.schedule_eq, OrderedMap.nodup_keys_put h.nodup_sources _ _, fun file ↦ ?_,
      h.nodup_results⟩
    rw [OrderedMap.mem_keys_put, h.mem_sources, hreadable, or_comm, eq_comm]
    exact or_congr_right ⟨fun heq ↦ ⟨heq, source, hsource⟩, And.left⟩
  · next hfault =>
    refine ⟨rfl, h.schedule_eq, h.nodup_sources, fun file ↦ ?_, h.nodup_results⟩
    rw [h.mem_sources, hreadable]
    simp [hfault]
  · next hfault =>
    refine ⟨rfl, h.schedule_eq, h.nodup_sources, fun file ↦ ?_,
      OrderedMap.nodup_keys_put h.nodup_results _ _⟩
    rw [h.mem_sources, hreadable]
    simp [hfault]

theorem hasRead_foldl (tree : FileTree) (files : List Path) :
    HasRead tree files (files.foldl readSource ({ tree }, [])).1
      (files.foldl readSource ({ tree }, [])).2 := by
  induction files using List.reverseRecOn with
  | nil =>
    refine ⟨rfl, rfl, List.nodup_nil, fun file ↦ iff_of_false List.not_mem_nil ?_, List.nodup_nil⟩
    rintro ⟨path, hpath, -⟩
    exact absurd hpath List.not_mem_nil
  | append_singleton files path ih =>
    rw [List.foldl_append]
    exact hasRead_readSource ih path

end Build

/-! ## Compiling -/

theorem Component.file_fields_ofTokens (file : Text) (fields : FrontMatter)
    (tokens : List Source.Token) :
    (ofTokens file fields tokens).file = file ∧ (ofTokens file fields tokens).fields = fields := by
  induction tokens using List.reverseRecOn with
  | nil => exact ⟨rfl, rfl⟩
  | append_singleton tokens token ih =>
    rw [ofTokens, List.foldl_append, List.foldl_cons, List.foldl_nil, ← ofTokens, declare]
    split <;> exact ih

theorem Component.file_fields_of_read {E : Type} {file : Text} {locator : Source.Locator E}
    {parts : FrontMatter.Extracted} {c : Component}
    (h : (Component.read file locator parts).component = .ok c) :
    c.file = file ∧ c.fields = parts.fields := by
  rw [Component.read] at h
  split at h
  · cases h
  · obtain rfl := Except.ok.inj h
    exact file_fields_ofTokens _ _ _

namespace Compile

variable {options : CompileOptions} {tree : FileTree} {c : Component} {page : Compiled}

theorem file_of_generate {tokens : List Source.Token} {warnings : List Diagnostic}
    {mode : ScriptMode} {known : List Definition}
    (h : (generate options tokens warnings c mode known).1 = .ok page) : page.file = c.file := by
  rw [generate] at h
  split at h
  · exact nomatch h
  · obtain rfl := Except.ok.inj h
    rfl

theorem file_of_finish {tokens : List Source.Token} {warnings : List Diagnostic}
    {mode : ScriptMode} (h : (finish options tree tokens warnings c mode).1 = .ok page) :
    page.file = c.file := by
  rw [finish] at h
  split at h
  · exact nomatch h
  · exact file_of_generate h

theorem file_of_component {registry : Route.Registry} {reading : Reading CompileError}
    (h : (component options tree registry reading c).result = .ok page) : page.file = c.file := by
  rw [component] at h
  split at h
  · exact nomatch h
  · split at h
    · exact nomatch h
    · exact file_of_finish h

theorem file_of_source {registry : Route.Registry} {file text : Text}
    (h : (source options tree registry file text).result = .ok page) : page.file = file := by
  simp only [source] at h
  split at h
  · exact nomatch h
  · split at h
    · exact nomatch h
    · next hread => rw [file_of_component h, (Component.file_fields_of_read hread).1]

end Compile

namespace Build

variable {config : BuildConfig} {write : Bool} {b : Build} {sources : OrderedMap Text} {file : Text}

theorem file_of_compileOne {page : Compiled} (h : (compileOne config sources b file).2 = .ok page) :
    page.file = file := Compile.file_of_source h

/-! ## Recording -/

/-- Whether a build differs from an earlier one by the result of a file, as far as results and the
schedule are concerned. -/
structure Records (b : Build) (file : Text) (after : Build) : Prop where
  schedule_eq : after.schedule = b.schedule
  results_eq : ∃ r : FileResult, r.file = file ∧ after.results = OrderedMap.put file r b.results

/-- Whether recording what came of compiling a file gives the build up: there is no page and it is
not the page that is at fault, or the page is written and a path of it is none. -/
def GivesUp (config : BuildConfig) (write : Bool) (tree : FileTree) :
    Except CompileError Compiled → Prop
  | .ok page => write = true ∧ ∃ e, (page.write config.outputDirectory tree).2 = .error e ∧
      e.fault = .nullCharacter
  | .error (.rejected _) => False
  | .error (.numeral _) => True
  | .error (.file _) => True

theorem clash?_collect (b : Build) (page : Compiled) :
    (b.collect page).clash? page = b.clash? page := rfl

/-- All that recording what came of compiling a file can do. -/
inductive Recorded (config : BuildConfig) (write : Bool) (b : Build) (file : Text) :
    Except CompileError Compiled → Build → Prop
  /-- The file failed for its problem. -/
  | rejected (d : Diagnostic) :
    Recorded config write b file (.error (.rejected d)) (b.fail file none d)
  /-- The build is given up, since there is no page and it is not the page that is at fault. -/
  | abandoned {result : Except CompileError Compiled} (e : BuildError) :
    GivesUp config write b.tree result → (∀ page, result ≠ .ok page) →
    Recorded config write b file result { b with failure := some e }
  /-- The file failed, since another one owns one of its artifacts. -/
  | clash {page : Compiled} {name owner : Text} :
    b.clash? page = some (name, owner) →
    Recorded config write b file (.ok page)
      ((b.collect page).fail page.file (some page) (clashError page.file name owner))
  /-- The file owns its artifacts, which are not to be written. -/
  | unasked {page : Compiled} :
    b.clash? page = none → write = false →
    Recorded config write b file (.ok page) ((b.collect page).own page)
  /-- The file owns its artifacts, and they were written. -/
  | written {page : Compiled} {tree : FileTree} {paths : List Path} :
    b.clash? page = none → write = true →
    page.write config.outputDirectory b.tree = (tree, .ok paths) →
    Recorded config write b file (.ok page)
      { (b.collect page).own page with
        tree, written := b.written ++ paths, notes := b.notes ++ writtenNotes paths }
  /-- The file owns its artifacts, and it failed since they could not be written. -/
  | unwritten {page : Compiled} {tree : FileTree} {e : FileError} :
    b.clash? page = none → write = true →
    page.write config.outputDirectory b.tree = (tree, .error e) → e.fault ≠ .nullCharacter →
    Recorded config write b file (.ok page)
      ({ (b.collect page).own page with tree }.fail page.file (some page)
        (writeError page.file config.outputDirectory e))
  /-- The build is given up, since the path of an artifact is none. -/
  | nowhere {page : Compiled} {tree : FileTree} {e : FileError} :
    b.clash? page = none → write = true →
    page.write config.outputDirectory b.tree = (tree, .error e) → e.fault = .nullCharacter →
    Recorded config write b file (.ok page)
      { (b.collect page).own page with tree, failure := some (.path e) }

theorem recorded_recordPage (config : BuildConfig) (write : Bool) (b : Build) (file : Text)
    (page : Compiled) :
    Recorded config write b file (.ok page) (recordPage config write b page) := by
  rw [recordPage, clash?_collect]
  split
  · next hclash => exact .clash hclash
  · next hclash =>
    split_ifs with hwrite
    · rw [writePage]
      split
      · next hpaths => exact .written hclash hwrite hpaths
      · next herror =>
        split_ifs with hnull
        · exact .nowhere hclash hwrite herror hnull
        · exact .unwritten hclash hwrite herror hnull
    · exact .unasked hclash (Bool.eq_false_iff.mpr hwrite)

theorem recorded_record (config : BuildConfig) (write : Bool) (b : Build) (file : Text)
    (result : Except CompileError Compiled) :
    Recorded config write b file result (record config write b file result) := by
  rcases result with (d | e | e) | page
  · exact .rejected d
  · exact .abandoned (.numeral e) trivial fun page h ↦ by cases h
  · exact .abandoned (.path e) trivial fun page h ↦ by cases h
  · exact recorded_recordPage config write b file page

theorem records_record {result : Except CompileError Compiled}
    (hown : ∀ page, result = .ok page → page.file = file) :
    Records b file (record config write b file result) ∨
      ∃ e, record config write b file result = { b with failure := some e } := by
  have hrecorded := recorded_record config write b file result
  generalize record config write b file result = after at hrecorded ⊢
  cases hrecorded with
  | rejected d => exact .inl ⟨rfl, _, rfl, rfl⟩
  | abandoned e _ _ => exact .inr ⟨e, rfl⟩
  | @clash page =>
    obtain rfl := hown page rfl
    exact .inl ⟨rfl, _, rfl, OrderedMap.put_put _ _ _ _⟩
  | @unasked page =>
    obtain rfl := hown page rfl
    exact .inl ⟨rfl, _, rfl, rfl⟩
  | @written page =>
    obtain rfl := hown page rfl
    exact .inl ⟨rfl, _, rfl, rfl⟩
  -- The page had its result already, and the fault of writing it takes the place of that.
  | @unwritten page =>
    obtain rfl := hown page rfl
    exact .inl ⟨rfl, _, rfl, OrderedMap.put_put _ _ _ _⟩
  | @nowhere page =>
    obtain rfl := hown page rfl
    exact .inl ⟨rfl, _, rfl, rfl⟩

/-- Recording gives a build up only in the cases that are listed. -/
theorem givesUp_of_failure {result : Except CompileError Compiled} (hnone : b.failure = none)
    (h : (record config write b file result).failure ≠ none) :
    GivesUp config write b.tree result := by
  have hrecorded := recorded_record config write b file result
  generalize record config write b file result = after at hrecorded h
  cases hrecorded with
  | rejected _ => exact absurd hnone h
  | abandoned _ hgives _ => exact hgives
  | clash _ => exact absurd hnone h
  | unasked _ _ => exact absurd hnone h
  | written _ _ _ => exact absurd hnone h
  | unwritten _ _ _ _ => exact absurd hnone h
  | nowhere _ hwrite herror hnull => exact ⟨hwrite, _, by rw [herror], hnull⟩

end Build

end PageCompiler
