import PageCompiler.Proofs.SourceNames
import PageCompiler.Proofs.WrittenArtifacts

/-!
# Pages and the order of a build

Which routes are claimed decides whether a source has a page, but not what is in it: of two
registries that both admit the route of a page, both give the same page
(`Compile.page_eq_of_registries`). A page depends on its source and on the files that its imports
ask for, which are known from the source: `Compile.askedPaths` lists the paths, and trees that agree
on them give the same outcome (`Compile.source_congr`).

A build writes artifacts while it compiles. As long as it writes none where an import asks, every
page of a run is the page that its source has in the tree the build began with, whatever was
compiled or recorded before, and so two runs that end a file with a page end it with the same one.
-/

namespace PageCompiler

open Relation

/-! ## Asking a tree -/

namespace FileTree

variable {tree tree' : FileTree} {path : Path}

/-- Whether two trees answer alike at some paths. -/
def AgreeOn (paths : List Path) (tree tree' : FileTree) : Prop :=
  ∀ path ∈ paths, tree.ask path = tree'.ask path

instance (paths : List Path) (tree tree' : FileTree) : Decidable (AgreeOn paths tree tree') :=
  inferInstanceAs (Decidable (∀ path ∈ paths, tree.ask path = tree'.ask path))

theorem readBytes_of_ask {bytes : List UInt8} (h : tree.ask path = .ok (some (.file bytes))) :
    tree.readBytes path = .ok bytes := by
  rw [ask] at h
  split at h
  · next hlocate => exact readBytes_of_at? hlocate (Except.ok.inj h)
  · cases h
  · cases h

theorem readText_congr (h : tree.ask path = tree'.ask path) (hfile : tree.askFile path = .ok true) :
    tree.readText path = tree'.readText path := by
  obtain ⟨node, hask, hnode⟩ := exists_of_map_eq_ok hfile
  cases node with
  | none => cases hnode
  | some node =>
    cases node with
    | directory => cases hnode
    | file bytes => rw [readText, readText, readBytes_of_ask hask, readBytes_of_ask (h ▸ hask)]

end FileTree

open FileTree (AgreeOn)

/-! ## Looking for imports -/

namespace ImportRules

variable {rules : ImportRules} {tree tree' : FileTree} {file path : Text}

/-- The paths that an import may ask for: where it is looked for, and what it may stand for. -/
def asked (rules : ImportRules) (file path : Text) : List Path :=
  match rules.places? path file with
  | none => [Path.ofText path]
  | some places => (places.flatMap rules.candidatesAt).flatMap fun c ↦ [c, Path.ofText c.toText]

theorem search_congr {candidates : List Path} (h : AgreeOn candidates tree tree') :
    search tree candidates = search tree' candidates := by
  induction candidates with
  | nil => rfl
  | cons first rest ih =>
    have hfirst : tree.askFile first = tree'.askFile first := by
      rw [FileTree.askFile, FileTree.askFile, h first List.mem_cons_self]
    rw [search, search, hfirst, ih fun p hp ↦ h p (List.mem_cons_of_mem _ hp)]

theorem exists_of_search {candidates : List Path} {found : Text} {searched : List Text}
    (h : search tree candidates = .ok (some found, searched)) :
    ∃ c ∈ candidates, c.toText = found := by
  induction candidates generalizing searched with
  | nil => cases h
  | cons first rest ih =>
    rw [search] at h
    split at h
    · cases h
    · obtain ⟨hfound, -⟩ := Prod.mk.inj (Except.ok.inj h)
      exact ⟨first, List.mem_cons_self, Option.some.inj hfound⟩
    · obtain ⟨⟨other, more⟩, hrest, heq⟩ := exists_of_map_eq_ok h
      obtain ⟨rfl, -⟩ := Prod.mk.inj heq
      obtain ⟨c, hc, hfound⟩ := ih hrest
      exact ⟨c, List.mem_cons_of_mem _ hc, hfound⟩

theorem resolve_congr (h : AgreeOn (rules.asked file path) tree tree') :
    rules.resolve tree path file = rules.resolve tree' path file := by
  rw [asked] at h
  cases hplaces : rules.places? path file with
  | none => simp only [resolve, hplaces]
  | some places =>
    simp only [hplaces] at h
    simp only [resolve, hplaces]
    rw [search_congr fun c hc ↦ h c (List.mem_flatMap.mpr ⟨c, hc, List.mem_cons_self⟩)]

theorem mem_asked_of_resolve {resolution : Resolution} {found : Text}
    (h : rules.resolve tree path file = .ok resolution) (hfound : resolution.found? = some found) :
    Path.ofText found ∈ rules.asked file path := by
  rw [asked]
  cases hplaces : rules.places? path file with
  | none =>
    simp only [resolve, hplaces] at h
    obtain rfl := Except.ok.inj h
    obtain rfl := Option.some.inj hfound
    exact List.mem_singleton_self _
  | some places =>
    simp only [resolve, hplaces] at h
    obtain ⟨⟨answer, searched⟩, hsearch, rfl⟩ := exists_of_map_eq_ok h
    cases answer with
    | none => cases hfound
    | some text =>
      obtain rfl := Option.some.inj hfound
      obtain ⟨c, hc, rfl⟩ := exists_of_search hsearch
      exact List.mem_flatMap.mpr ⟨c, hc, List.mem_cons_of_mem _ List.mem_cons_self⟩

end ImportRules

namespace Source

variable {E : Type} {file : Text} {locator locator' : Locator E} {events : List Event}

theorem locate_congr
    (h : ∀ line name path resolved, Event.token ⟨line, .imported name path resolved⟩ ∈ events →
      locator path line = locator' path line) :
    locate file locator events = locate file locator' events := by
  induction events with
  | nil => rfl
  | cons event rest ih =>
    have hrest := ih fun line name path resolved hmem ↦
      h line name path resolved (List.mem_cons_of_mem _ hmem)
    rcases event with ⟨line, declaration⟩ | _ | _ | _
    · cases declaration with
      | imported name path resolved =>
        rw [locate, locate, h line name path resolved List.mem_cons_self, hrest]
      | reactive _ _ => simp only [locate, hrest]
      | computed _ _ => simp only [locate, hrest]
      | function _ _ _ => simp only [locate, hrest]
      | template _ => simp only [locate, hrest]
      | componentName _ => simp only [locate, hrest]
    · simp only [locate, hrest]
    · simp only [locate, hrest]
    · simp only [locate, hrest]

theorem mem_scanImports {text : Text} {line : Int} {name path : Text} {resolved : Option Text}
    (h : Event.token ⟨line, .imported name path resolved⟩ ∈
      scan (FrontMatter.extract text).bodyOffset (FrontMatter.extract text).body) :
    (path, line) ∈ scanImports text :=
  List.mem_filterMap.mpr ⟨_, List.mem_filterMap.mpr ⟨_, h, rfl⟩, rfl⟩

end Source

variable {i : Import}

theorem Component.exists_of_mem_imports {file : Text} {fields : FrontMatter}
    {tokens : List Source.Token} (h : i ∈ (ofTokens file fields tokens).imports) :
    ⟨i.line, .imported i.name i.path i.resolved⟩ ∈ tokens := by
  induction tokens using List.reverseRecOn with
  | nil => exact absurd h List.not_mem_nil
  | append_singleton tokens token ih =>
    rw [ofTokens, List.foldl_append, List.foldl_cons, List.foldl_nil, declare] at h
    obtain ⟨line, declaration⟩ := token
    cases declaration with
    | imported name path resolved =>
      rcases List.mem_append.mp h with h | h
      · exact List.mem_append_left _ (ih h)
      · obtain rfl := List.mem_singleton.mp h
        exact List.mem_append_right _ (List.mem_singleton_self _)
    | reactive _ _ => exact List.mem_append_left _ (ih h)
    | computed _ _ => exact List.mem_append_left _ (ih h)
    | function _ _ _ => exact List.mem_append_left _ (ih h)
    | template _ => exact List.mem_append_left _ (ih h)
    | componentName _ => exact List.mem_append_left _ (ih h)

theorem Noted.each_congr {E α β : Type} {step step' : α → Noted E β} {as : List α}
    (h : ∀ a ∈ as, step a = step' a) : each step as = each step' as := by
  induction as with
  | nil => rfl
  | cons a rest ih =>
    rw [each, each, h a List.mem_cons_self, ih fun b hb ↦ h b (List.mem_cons_of_mem _ hb)]

/-! ## Compiling a source -/

namespace Compile

variable {options : CompileOptions} {tree tree' : FileTree} {file text : Text}

/-- The paths that compiling a source may ask for. -/
def askedPaths (options : CompileOptions) (file text : Text) : List Path :=
  if options.resolveImports then
    (scanImports text).flatMap fun (path, _) ↦
      (ImportRules.standard (Path.ofText options.base) options.aliases).asked file path
  else []

theorem mem_askedPaths (hresolve : options.resolveImports = true) {path : Text} {line : Int}
    (h : (path, line) ∈ scanImports text) {p : Path}
    (hp : p ∈ (ImportRules.standard (Path.ofText options.base) options.aliases).asked file path) :
    p ∈ askedPaths options file text := by
  rw [askedPaths, if_pos hresolve]
  exact List.mem_flatMap.mpr ⟨(path, line), h, hp⟩

theorem locator_congr (h : AgreeOn (askedPaths options file text) tree tree') {path : Text}
    {line : Int} (himport : (path, line) ∈ scanImports text) :
    options.locator tree file path line = options.locator tree' file path line := by
  dsimp only [CompileOptions.locator]
  by_cases hresolve : options.resolveImports = true
  · rw [ImportRules.resolve_congr fun p hp ↦ h p (mem_askedPaths hresolve himport hp)]
  · rw [Bool.not_eq_true] at hresolve
    rw [hresolve]
    rfl

theorem read_congr (h : AgreeOn (askedPaths options file text) tree tree') :
    Component.read file (options.locator tree file) (FrontMatter.extract text) =
      Component.read file (options.locator tree' file) (FrontMatter.extract text) := by
  rw [Component.read, Component.read, Source.tokenize, Source.tokenize]
  rw [Source.locate_congr fun line name path resolved hmem ↦
    locator_congr h (Source.mem_scanImports hmem)]

theorem resolve_of_locator {path found : Text} {line : Int}
    (h : (options.locator tree file path line).found = .ok (some found)) :
    options.resolveImports = true ∧ ∃ resolution,
      (ImportRules.standard (Path.ofText options.base) options.aliases).resolve tree path file =
        .ok resolution ∧ resolution.found? = some found := by
  dsimp only [CompileOptions.locator] at h
  by_cases hresolve : options.resolveImports = true
  · refine ⟨hresolve, ?_⟩
    rw [if_neg (by simp [hresolve])] at h
    split at h
    · cases h
    · split at h
      · cases h
      · cases h
    · next resolution _ hresolution => exact ⟨resolution, hresolution, Except.ok.inj h⟩
  · rw [if_pos (by simpa using hresolve)] at h
    cases h

/-- What an import of a component stands for is among the paths that its source may ask for. -/
theorem mem_askedPaths_of_read {c : Component}
    (h : (Component.read file (options.locator tree file) (FrontMatter.extract text)).component =
      .ok c)
    (hi : i ∈ c.imports) {path : Text} (hpath : i.resolved = some path) :
    Path.ofText path ∈ askedPaths options file text := by
  rw [Component.read] at h
  split at h
  · cases h
  · next tokens htokens =>
    obtain rfl := Except.ok.inj h
    obtain ⟨before, hevent, hafter⟩ :=
      Source.exists_of_locate htokens _ (Component.exists_of_mem_imports hi)
    cases hafter with
    | imported hfound =>
      rw [hpath] at hfound
      obtain ⟨hresolve, resolution, hresolution, hstands⟩ := resolve_of_locator hfound
      exact mem_askedPaths hresolve (Source.mem_scanImports hevent)
        (ImportRules.mem_asked_of_resolve hresolution hstands)
    | other hother => cases hother

theorem definition_congr
    (h : ∀ path, i.resolved = some path →
      tree.ask (Path.ofText path) = tree'.ask (Path.ofText path)) :
    definition tree i = definition tree' i := by
  have hproperties : importedProperties tree i = importedProperties tree' i := by
    rw [importedProperties, importedProperties]
    split
    · rfl
    · rfl
    · next path _ hpath =>
      have hask := h path hpath
      have hfile : tree.askFile (Path.ofText path) = tree'.askFile (Path.ofText path) := by
        rw [FileTree.askFile, FileTree.askFile, hask]
      rw [← hfile]
      split
      · rfl
      · rfl
      · next hthere => rw [FileTree.readText_congr hask hthere]
  rw [definition, definition, hproperties]

/-- **Trees that agree where a source may ask give the same outcome.** -/
theorem source_congr (h : AgreeOn (askedPaths options file text) tree tree')
    (registry : Route.Registry) :
    source options tree registry file text = source options tree' registry file text := by
  have hread := read_congr h
  have hdefinitions : ∀ c, (Component.read file (options.locator tree file)
      (FrontMatter.extract text)).component = .ok c → definitions tree c = definitions tree' c := by
    intro c hc
    exact Noted.each_congr fun i hi ↦ definition_congr fun path hpath ↦
      h _ (mem_askedPaths_of_read hc hi hpath)
  unfold source
  dsimp only
  rw [← hread]
  split
  · rfl
  · split
    · rfl
    · next c hc =>
      have hfinish : ∀ tokens warnings mode,
          finish options tree tokens warnings c mode =
            finish options tree' tokens warnings c mode := by
        intro tokens warnings mode
        rw [finish, finish, hdefinitions c hc]
      simp only [component, hfinish]

/-- A page is finished from what its source declares, whatever the registry. -/
theorem exists_finish_of_source {registry : Route.Registry} {page : Compiled}
    (h : (source options tree registry file text).result = .ok page) :
    let reading := Component.read file (options.locator tree file) (FrontMatter.extract text)
    ∃ c mode, reading.component = .ok c ∧
      ScriptMode.choose c.fields options.preference c.name (some c.file) = .ok mode ∧
      (finish options tree reading.tokens reading.warnings c mode).1 = .ok page := by
  simp only [source] at h
  split at h
  · cases h
  · split at h
    · cases h
    · next c hc =>
      rw [component] at h
      split at h
      · cases h
      · split at h
        · cases h
        · next mode hmode => exact ⟨c, mode, hc, hmode, h⟩

/-- **The routes of other files do not show in a page.** -/
theorem page_eq_of_registries {registry registry' : Route.Registry} {page page' : Compiled}
    (h : (source options tree registry file text).result = .ok page)
    (h' : (source options tree registry' file text).result = .ok page') : page = page' := by
  obtain ⟨c, mode, hc, hmode, hpage⟩ := exists_finish_of_source h
  obtain ⟨c', mode', hc', hmode', hpage'⟩ := exists_finish_of_source h'
  obtain rfl : c = c' := Except.ok.inj (hc.symm.trans hc')
  obtain rfl : mode = mode' := Except.ok.inj (hmode.symm.trans hmode')
  exact Except.ok.inj (hpage.symm.trans hpage')

end Compile

/-! ## Runs -/

namespace Build

variable {config : BuildConfig} {write : Bool}

theorem hasPage_put {results : OrderedMap FileResult} {file other : Text} {r : FileResult}
    {page : Compiled} (h : HasPage (OrderedMap.put file r results) other page) :
    (other = file ∧ r.page = some page) ∨ HasPage results other page := by
  obtain ⟨found, hfound, hpage⟩ := h
  by_cases hne : other = file
  · rw [hne, OrderedMap.get?_put_self] at hfound
    obtain rfl := Option.some.inj hfound
    exact .inl ⟨hne, hpage⟩
  · rw [OrderedMap.get?_put_of_ne hne] at hfound
    exact .inr ⟨found, hfound, hpage⟩

theorem hasPage_record {b : Build} {file other : Text} {result : Except CompileError Compiled}
    {page : Compiled} (h : HasPage (record config write b file result).results other page) :
    (result = .ok page ∧ other = page.file) ∨ HasPage b.results other page := by
  have htaken : ∀ {taken : Compiled} {errors : List Diagnostic}, result = .ok taken →
      HasPage (OrderedMap.put taken.file ⟨taken.file, some taken, errors⟩ b.results) other page →
      (result = .ok page ∧ other = page.file) ∨ HasPage b.results other page := by
    intro taken errors hresult hput
    rcases hasPage_put hput with ⟨hfile, hpage⟩ | hbefore
    · obtain rfl := Option.some.inj hpage
      exact .inl ⟨hresult, hfile⟩
    · exact .inr hbefore
  have hrecorded := recorded_record config write b file result
  generalize record config write b file result = after at hrecorded h
  cases hrecorded with
  | rejected _ =>
    rcases hasPage_put h with ⟨-, hpage⟩ | hbefore
    · cases hpage
    · exact .inr hbefore
  | abandoned _ _ _ => exact .inr h
  | clash _ =>
    rw [fail, collect, OrderedMap.put_put] at h
    exact htaken rfl h
  | unasked _ _ => exact htaken rfl h
  | written _ _ _ => exact htaken rfl h
  | unwritten _ _ _ _ =>
    rw [fail, own, collect, OrderedMap.put_put] at h
    exact htaken rfl h
  | nowhere _ _ _ _ => exact htaken rfl h

variable {stage : Stage}

namespace Loop

variable {tree : FileTree} {files : List Path} (loop : Loop config tree files)

/-- The paths that compiling the sources of a build may ask for. -/
def askedPaths : List Path :=
  loop.sources.flatMap fun (file, text) ↦ Compile.askedPaths config.options file text

/-- Whether some run comes to a stage without disturbing its sources: at every stage before, what
its imports ask for is as it was at the beginning. -/
def ReachesUndisturbed (write : Bool) (stage : Stage) : Prop :=
  ReflTransGen (fun before after ↦ loop.Step write before after ∧
    FileTree.AgreeOn loop.askedPaths before.build.tree tree) loop.start stage

/-- Whether a page is the one that a source of the build has in the tree it began with. -/
def PageOf (file : Text) (page : Compiled) : Prop :=
  ∃ registry, (Compile.source config.options tree registry file
    ((OrderedMap.get? loop.sources file).getD [])).result = .ok page

variable {loop}

theorem PageOf.unique {file : Text} {page page' : Compiled} (h : loop.PageOf file page)
    (h' : loop.PageOf file page') : page = page' := by
  obtain ⟨registry, hpage⟩ := h
  obtain ⟨registry', hpage'⟩ := h'
  exact Compile.page_eq_of_registries hpage hpage'

theorem ReachesUndisturbed.reaches (h : loop.ReachesUndisturbed write stage) :
    loop.Reaches write stage := ReflTransGen.mono (fun _ _ hstep ↦ hstep.1) _ _ h

theorem askedPaths_subset (file : Text) :
    Compile.askedPaths config.options file ((OrderedMap.get? loop.sources file).getD []) ⊆
      loop.askedPaths := by
  intro p hp
  cases htext : OrderedMap.get? loop.sources file with
  | none =>
    -- There is no such source, and an empty one imports nothing.
    rw [htext, Option.getD_none, Compile.askedPaths] at hp
    split_ifs at hp
    · exact absurd hp List.not_mem_nil
    · exact absurd hp List.not_mem_nil
  | some text =>
    rw [htext] at hp
    exact List.mem_flatMap.mpr ⟨(file, text), OrderedMap.mem_of_get? htext, hp⟩

/-- **Every page of a run is that of its source**, as long as its sources are not disturbed. -/
theorem ReachesUndisturbed.pageOf (h : loop.ReachesUndisturbed write stage) :
    (∀ file page, (file, Except.ok page) ∈ stage.ended → loop.PageOf file page) ∧
      ∀ file page, HasPage stage.build.results file page → loop.PageOf file page := by
  induction h with
  | refl =>
    refine ⟨fun _ _ hmem ↦ absurd hmem List.not_mem_nil, fun file page hpage ↦ ?_⟩
    exact absurd (loop.stored_read.pages file page hpage).1 List.not_mem_nil
  | @tail stage next hreach hstep ih =>
    obtain ⟨hended, hresults⟩ := ih
    obtain ⟨hmove, hagree⟩ := hstep
    refine ⟨fun file page hmem ↦ ?_, ?_⟩
    · rcases Move.mem_ended hmove hmem with hbefore | hpage
      · exact hended file page hbefore
      · refine ⟨stage.build.registry, ?_⟩
        rw [← Compile.source_congr fun p hp ↦ hagree p (askedPaths_subset file hp)]
        exact hpage
    cases hmove with
    | submit _ _ | compile _ _ _ => exact hresults
    | @record b front back file result _ =>
      intro f page hpage
      have hmem : (file, result) ∈ front ++ (file, result) :: back := by simp
      rw [(sameRecords_recordNext config write loop.kept b file result).results] at hpage
      rcases hasPage_record hpage with ⟨rfl, rfl⟩ | hbefore
      · rw [(loop.sound_of_reaches (ReachesUndisturbed.reaches hreach)).own file page hmem]
        exact hended file page hmem
      · exact hresults f page hbefore

theorem tree_record_false (b : Build) (file : Text) (result : Except CompileError Compiled) :
    (record config false b file result).tree = b.tree := by
  have hrecorded := recorded_record config false b file result
  generalize record config false b file result = after at hrecorded
  cases hrecorded with
  | rejected _ => rfl
  | abandoned _ _ _ => rfl
  | clash _ => rfl
  | unasked _ _ => rfl
  | written _ hwrite _ => cases hwrite
  | unwritten _ hwrite _ _ => cases hwrite
  | nowhere _ hwrite _ _ => cases hwrite

theorem tree_of_reaches_false (h : loop.Reaches false stage) : stage.build.tree = tree := by
  induction h with
  | refl => exact loop.hasRead.tree_eq
  | tail _ hmove ih =>
    cases hmove with
    | submit _ _ => exact ih
    | compile _ _ _ => exact ih
    | @record b front back file result _ =>
      rw [(sameRecords_recordNext config false loop.kept b file result).tree, tree_record_false]
      exact ih

/-- A build that looks for no imports or writes nothing does not disturb its sources. -/
theorem reachesUndisturbed_of_idle (hidle : config.resolveImports = false ∨ write = false)
    (h : loop.Reaches write stage) : loop.ReachesUndisturbed write stage := by
  have hagree : ∀ {stage}, loop.Reaches write stage →
      FileTree.AgreeOn loop.askedPaths stage.build.tree tree := by
    intro stage hreach p hp
    rcases hidle with hresolve | rfl
    · obtain ⟨⟨file, text⟩, -, hasked⟩ := List.mem_flatMap.mp hp
      have hnone : Compile.askedPaths config.options file text = [] :=
        if_neg (Bool.not_eq_true _ ▸ hresolve)
      dsimp only at hasked
      rw [hnone] at hasked
      exact absurd hasked List.not_mem_nil
    · rw [tree_of_reaches_false hreach]
  induction h with
  | refl => exact .refl
  | tail hreach hmove ih => exact ih.tail ⟨hmove, hagree hreach⟩

end Loop

/-- **The order of a build does not show in its pages.** Of two registries that both give a source a
page, both give it the same. And two runs of a build that do not disturb its sources, whether they
write or not and in whatever order compilations end and files are recorded, end a file that succeeds
in both with the same page, and so with the same artifacts and warnings. A build that looks for no
imports, or that writes nothing, disturbs nothing. -/
theorem pages_independent_of_order :
    (∀ options tree registry registry' file text page page',
      (Compile.source options tree registry file text).result = .ok page →
      (Compile.source options tree registry' file text).result = .ok page' → page = page') ∧
    (∀ {config : BuildConfig} {tree : FileTree} {files : List Path} (loop : Loop config tree files)
      (write write' : Bool) (first second : Stage),
      loop.ReachesUndisturbed write first → loop.ReachesUndisturbed write' second →
      ∀ file ∈ first.build.succeeded, file ∈ second.build.succeeded →
        ∃ page, Succeeds first.build.results file page ∧
          Succeeds second.build.results file page) ∧
    ∀ {config : BuildConfig} {tree : FileTree} {files : List Path} (loop : Loop config tree files)
      (write : Bool) (stage : Stage), config.resolveImports = false ∨ write = false →
      loop.Reaches write stage → loop.ReachesUndisturbed write stage := by
  refine ⟨fun _ _ _ _ _ _ _ _ ↦ Compile.page_eq_of_registries, ?_,
    fun _ _ _ hidle ↦ Loop.reachesUndisturbed_of_idle hidle⟩
  intro config tree files loop write write' first second hfirst hsecond file hfile hfile'
  obtain ⟨page, hpage⟩ := exists_succeeds_of_mem (loop.sound_of_reaches hfirst.reaches) hfile
  obtain ⟨page', hpage'⟩ := exists_succeeds_of_mem (loop.sound_of_reaches hsecond.reaches) hfile'
  obtain rfl : page = page' :=
    (hfirst.pageOf.2 file page hpage.hasPage).unique (hsecond.pageOf.2 file page' hpage'.hasPage)
  exact ⟨page, hpage, hpage'⟩

/-- A build after a submitted file was compiled and recorded. -/
def Loop.turn {config : BuildConfig} {tree : FileTree} {files : List Path}
    (loop : Loop config tree files) (write : Bool) (b : Build) (file : Text) : Build :=
  recordNext config write loop.kept (compileOne config loop.sources b file).1 file
    (compileOne config loop.sources b file).2

theorem Loop.reachesUndisturbed_turn {tree : FileTree} {files : List Path}
    {loop : Loop config tree files} {b : Build} {file : Text}
    (h : loop.ReachesUndisturbed write ⟨b, []⟩) (hnone : b.failure = none)
    (hpending : file ∈ b.schedule.pending)
    (hagree : FileTree.AgreeOn loop.askedPaths b.tree tree) :
    loop.ReachesUndisturbed write ⟨loop.turn write b file, []⟩ := by
  have hcompile : loop.ReachesUndisturbed write ⟨(compileOne config loop.sources b file).1,
      [] ++ (file, (compileOne config loop.sources b file).2) :: []⟩ :=
    h.tail ⟨.compile hnone hpending List.not_mem_nil, hagree⟩
  exact hcompile.tail ⟨.record hnone, hagree⟩

/-- A page that imports a component, and a page with a route. -/
def importingPages : FileTree where
  nodes :=
    [(["a.mtm"], .file (Utf8.encode "import X from \"./x.jsx\"")),
     (["b.mtm"], .file (Utf8.encode "---\nroute: /b\n---")),
     (["x.jsx"], .file (Utf8.encode "export function X({ size }) {}"))]

def importingLoop : Loop { resolveImports := true } importingPages
    [Path.ofText "a.mtm", Path.ofText "b.mtm"] where
  read := (([Path.ofText "a.mtm", Path.ofText "b.mtm"]).foldl readSource
    ({ tree := importingPages }, [])).1
  sources := (([Path.ofText "a.mtm", Path.ofText "b.mtm"]).foldl readSource
    ({ tree := importingPages }, [])).2
  graph := [("a.mtm", []), ("b.mtm", [])]
  notes := _
  read_eq := rfl
  failure_eq := by decide +kernel
  graph_eq := Prod.ext (by decide +kernel) rfl
  staffed := rfl

/-- These pages after they were submitted, and compiled and recorded one after the other. -/
def importingRun (files : List Text) : Build :=
  files.foldl (importingLoop.turn true)
    { importingLoop.start.build with schedule := importingLoop.start.build.schedule.submit }

theorem importing_runs_agree :
    importingLoop.ReachesUndisturbed true ⟨importingRun ["a.mtm", "b.mtm"], []⟩ ∧
      importingLoop.ReachesUndisturbed true ⟨importingRun ["b.mtm", "a.mtm"], []⟩ ∧
      ∃ page, Succeeds (importingRun ["a.mtm", "b.mtm"]).results "a.mtm" page ∧
        Succeeds (importingRun ["b.mtm", "a.mtm"]).results "a.mtm" page := by
  have hready : importingLoop.start.build.failure = none ∧
      importingLoop.start.build.schedule.ready ≠ [] ∧
      (importingRun []).failure = none ∧
      (importingRun []).schedule.pending = [("a.mtm" : Text), ("b.mtm" : Text)] ∧
      FileTree.AgreeOn importingLoop.askedPaths (importingRun []).tree importingPages := by
    decide +kernel
  have hfirst : ((importingRun ["a.mtm"]).failure = none ∧
        ("b.mtm" : Text) ∈ (importingRun ["a.mtm"]).schedule.pending ∧
        FileTree.AgreeOn importingLoop.askedPaths (importingRun ["a.mtm"]).tree importingPages) ∧
      (importingRun ["b.mtm"]).failure = none ∧
        ("a.mtm" : Text) ∈ (importingRun ["b.mtm"]).schedule.pending ∧
        FileTree.AgreeOn importingLoop.askedPaths (importingRun ["b.mtm"]).tree importingPages := by
    decide +kernel
  have hsucceed : ("a.mtm" : Text) ∈ (importingRun ["a.mtm", "b.mtm"]).succeeded ∧
      ("a.mtm" : Text) ∈ (importingRun ["b.mtm", "a.mtm"]).succeeded := by decide +kernel
  obtain ⟨hstarts, hsubmit, hnone, hpending, hagree⟩ := hready
  have hstart : importingLoop.ReachesUndisturbed true ⟨importingRun [], []⟩ :=
    .single ⟨.submit hstarts hsubmit, hagree⟩
  have hturn : ∀ file ∈ (importingRun []).schedule.pending,
      importingLoop.ReachesUndisturbed true ⟨importingRun [file], []⟩ := fun file hfile ↦
    Loop.reachesUndisturbed_turn hstart hnone hfile hagree
  rw [hpending] at hturn
  obtain ⟨⟨hnone₁, hpending₁, hagree₁⟩, hnone₂, hpending₂, hagree₂⟩ := hfirst
  have hforth := Loop.reachesUndisturbed_turn (hturn "a.mtm" (by simp)) hnone₁ hpending₁ hagree₁
  have hback := Loop.reachesUndisturbed_turn (hturn "b.mtm" (by simp)) hnone₂ hpending₂ hagree₂
  refine ⟨hforth, hback, ?_⟩
  exact pages_independent_of_order.2.1 importingLoop true true _ _ hforth hback "a.mtm"
    hsucceed.1 hsucceed.2

end Build

end PageCompiler
