import PageCompiler.Proofs.Deliveries
import PageCompiler.Proofs.FileTrees

/-!
# What a build leaves in its output directory

Every artifact belongs to the first file that produces it, and a later file that produces it too
fails. Artifacts are told apart by their names, but a name is not a place: a script may ask for a
file by a path that leads up and down again, and then two names lead to one file, and the page that
is recorded last has its script there.

This is all that can go wrong. `Build.Stored` says of a build how the places of its artifacts are
filled: each has an artifact of some file that owns its names. Recording a file keeps it, so it
holds at every stage of every run. Documents have names that lead to one place each, and never to
that of a script; so a page that succeeded has its document where it belongs, and its script unless
another page has a script by another name there.
-/

namespace PageCompiler

open Relation

/-! ## Names and paths -/

variable {t : Text} {r : FileResult}

namespace Path

theorem filter_singleton (h : 2 ≤ t.length) :
    ([t].filter fun p ↦ !p.isEmpty && p != ['.']) = [t] := by
  refine List.filter_eq_self.mpr fun p hp ↦ ?_
  rw [List.mem_singleton.mp hp, Bool.and_eq_true, Bool.not_eq_true', List.isEmpty_eq_false_iff,
    bne_iff_ne]
  constructor
  · rintro rfl
    exact absurd h (by decide)
  · rintro rfl
    exact absurd h (by decide)

theorem ofText_of_notMem (hslash : '/' ∉ t) (hlength : 2 ≤ t.length) : ofText t = ⟨[], [t]⟩ := by
  have htake : t.takeWhile (· == '/') = [] := by
    cases t with
    | nil => rfl
    | cons c cs =>
      have hc : c ≠ '/' := fun heq ↦ hslash (heq ▸ List.mem_cons_self)
      rw [List.takeWhile_cons, beq_false_of_ne hc]
      rfl
  rw [ofText, htake, Text.splitOn_of_notMem hslash, filter_singleton hlength]
  rfl

theorem ne_up_of_length (h : 3 ≤ t.length) : t ≠ up := by
  rintro rfl
  exact absurd h (by decide)

theorem exists_splitOn_concat {tail : Text} (h : '/' ∉ tail) (front : Text) :
    ∃ pieces last, Text.splitOn '/' (front ++ tail) = pieces ++ [last ++ tail] := by
  induction front with
  | nil => exact ⟨[], [], Text.splitOn_of_notMem h⟩
  | cons c cs ih =>
    obtain ⟨pieces, last, heq⟩ := ih
    rw [List.cons_append, Text.splitOn, heq]
    split_ifs with hc
    · exact ⟨[] :: pieces, last, rfl⟩
    · cases pieces with
      | nil => exact ⟨[], c :: last, rfl⟩
      | cons first rest => exact ⟨(c :: first) :: rest, last, rfl⟩

theorem exists_parts_concat {tail name : Text} (hslash : '/' ∉ tail) (hlength : 2 ≤ tail.length)
    (h : tail <:+ name) : ∃ pieces last, (ofText name).parts = pieces ++ [last ++ tail] := by
  obtain ⟨front, rfl⟩ := h
  obtain ⟨pieces, last, heq⟩ := exists_splitOn_concat hslash front
  refine ⟨pieces.filter fun p ↦ !p.isEmpty && p != ['.'], last, ?_⟩
  rw [ofText, heq, List.filter_append, filter_singleton]
  rw [List.length_append]
  exact Nat.le_add_left_of_le hlength

end Path

namespace Compiled.Named

variable {page : Compiled}

theorem ofText_outputName (h : page.Named) : ∃ front : Text,
    Path.ofText page.outputName = ⟨[], [front ++ ".html"]⟩ := by
  obtain ⟨front, hslash, heq⟩ := h.document
  refine ⟨front, ?_⟩
  rw [heq]
  apply Path.ofText_of_notMem
  · rw [List.mem_append, not_or]
    exact ⟨hslash, by decide⟩
  · rw [List.length_append]
    exact Nat.le_add_left_of_le (by decide)

theorem parts_script (h : page.Named) {name : Text} (hname : page.externalFile? = some name) :
    ∃ (pieces : List Text) (last : Text), (Path.ofText name).parts = pieces ++ [last ++ ".js"] :=
  Path.exists_parts_concat (by decide) (by decide) (h.script name hname)

theorem isPlain_outputName (h : page.Named) : (Path.ofText page.outputName).IsPlain := by
  obtain ⟨front, heq⟩ := h.ofText_outputName
  rw [heq]
  refine ⟨rfl, fun hup ↦ ?_⟩
  exact Path.ne_up_of_length (by rw [List.length_append]; exact Nat.le_add_left 3 _)
    (List.mem_singleton.mp hup).symm

/-- No document is in the place of a script. -/
theorem locate_outputName_ne {tree : FileTree} {directory : Path} {location : List Text}
    {other : Compiled} (h : page.Named) (hother : other.Named) {name : Text}
    (hname : other.externalFile? = some name)
    (hdocument : tree.locate (directory.appendText page.outputName) = .ok location) :
    tree.locate (directory.appendText name) ≠ .ok location := by
  intro hscript
  obtain ⟨front, heq⟩ := h.ofText_outputName
  obtain ⟨pieces, last, hparts⟩ := hother.parts_script hname
  have hfirst : (Path.ofText page.outputName).parts = [] ++ [front ++ ".html"] := by rw [heq]; rfl
  obtain ⟨above, habove⟩ := FileTree.exists_concat_of_locate hfirst
    (Path.ne_up_of_length (by rw [List.length_append]; exact Nat.le_add_left 3 _)) hdocument
  obtain ⟨above', habove'⟩ := FileTree.exists_concat_of_locate hparts
    (Path.ne_up_of_length (by rw [List.length_append]; exact Nat.le_add_left 3 _)) hscript
  rw [habove] at habove'
  obtain ⟨-, hlast⟩ := List.append_inj' habove' rfl
  have hends := congrArg List.getLast? (List.cons.inj hlast).1
  rw [List.getLast?_append, List.getLast?_append] at hends
  exact absurd (show some 'l' = some 's' from hends) (by decide)

end Compiled.Named

/-! ## Pages and their places -/

namespace Build

/-- Whether a file has a page among the results, even if the page could not be written. -/
def HasPage (results : OrderedMap FileResult) (file : Text) (page : Compiled) : Prop :=
  ∃ r, OrderedMap.get? results file = some r ∧ r.page = some page

/-- Whether a file succeeded with a page. -/
def Succeeds (results : OrderedMap FileResult) (file : Text) (page : Compiled) : Prop :=
  ∃ r, OrderedMap.get? results file = some r ∧ r.page = some page ∧ r.errors = []

/-- Whether the artifacts of a page belong to its file. -/
def Owns (b : Build) (page : Compiled) : Prop :=
  ∀ name ∈ page.artifactNames, OrderedMap.get? b.outputs name = some page.file

/-- Whether there is an artifact at a location, of a page whose artifacts belong to its file. -/
def Produced (b : Build) (directory : Path) (location : List Text) : Prop :=
  ∃ file page, HasPage b.results file page ∧ b.Owns page ∧
    b.tree.Shows directory page.artifacts location

/-- How the places of the artifacts are filled, given the files that are recorded. -/
structure Stored (config : BuildConfig) (recorded : List Text) (b : Build) : Prop where
  pages : ∀ file page, HasPage b.results file page →
    file ∈ recorded ∧ page.file = file ∧ page.OfSource config.options
  owners : ∀ name owner, OrderedMap.get? b.outputs name = some owner → owner ∈ recorded
  owned : ∀ file page, Succeeds b.results file page → b.Owns page
  filled : ∀ file page, Succeeds b.results file page → ∀ artifact ∈ page.artifacts,
    ∃ location, b.tree.locate (config.outputDirectory.appendText artifact.1) = .ok location ∧
      b.Produced config.outputDirectory location

variable {config : BuildConfig} {recorded : List Text} {b after : Build} {file : Text}
  {page : Compiled}

theorem Succeeds.hasPage {results : OrderedMap FileResult} (h : Succeeds results file page) :
    HasPage results file page := by
  obtain ⟨r, hr, hpage, -⟩ := h
  exact ⟨r, hr, hpage⟩

/-- What recording a file may do to the rest of a build: it leaves the results of other files and
the owners of artifacts alone, and changes files only where artifacts go that belong to the file. -/
structure Adds (config : BuildConfig) (file : Text) (r : FileResult) (b after : Build) : Prop where
  results : after.results = OrderedMap.put file r b.results
  page : ∀ page, r.page = some page → page.file = file ∧ page.OfSource config.options
  kept : ∀ name owner, OrderedMap.get? b.outputs name = some owner → owner ≠ file →
    OrderedMap.get? after.outputs name = some owner
  new : ∀ name owner, OrderedMap.get? after.outputs name = some owner →
    owner = file ∨ OrderedMap.get? b.outputs name = some owner
  tree : ∃ artifacts, FileTree.Receives config.outputDirectory artifacts b.tree after.tree ∧
    ∀ location, after.tree.Shows config.outputDirectory artifacts location →
      after.Produced config.outputDirectory location
  success : r.errors = [] → ∀ page, r.page = some page → after.Owns page ∧
    ∀ artifact ∈ page.artifacts,
      ∃ location, after.tree.locate (config.outputDirectory.appendText artifact.1) = .ok location ∧
        after.Produced config.outputDirectory location

theorem Adds.hasPage_of_ne (h : Adds config file r b after) {other : Text} (hne : other ≠ file) :
    HasPage after.results other page ↔ HasPage b.results other page := by
  rw [HasPage, HasPage, h.results, OrderedMap.get?_put_of_ne hne]

theorem Adds.succeeds_of_ne (h : Adds config file r b after) {other : Text} (hne : other ≠ file) :
    Succeeds after.results other page ↔ Succeeds b.results other page := by
  rw [Succeeds, Succeeds, h.results, OrderedMap.get?_put_of_ne hne]

theorem Adds.eq_of_get? {r' : FileResult} (h : Adds config file r b after)
    (hr' : OrderedMap.get? after.results file = some r') : r = r' := by
  rw [h.results, OrderedMap.get?_put_self] at hr'
  exact Option.some.inj hr'

/-- A file that succeeds when it is recorded owns its artifacts, and they are there. -/
theorem Adds.of_succeeds (h : Adds config file r b after) (hs : Succeeds after.results file page) :
    after.Owns page ∧ ∀ artifact ∈ page.artifacts,
      ∃ location, after.tree.locate (config.outputDirectory.appendText artifact.1) = .ok location ∧
        after.Produced config.outputDirectory location := by
  obtain ⟨r', hr', hpage, herrors⟩ := hs
  obtain rfl := h.eq_of_get? hr'
  exact h.success herrors page hpage

theorem Adds.owns (h : Adds config file r b after) (howns : b.Owns page) (hne : page.file ≠ file) :
    after.Owns page := fun name hname ↦
  h.kept name page.file (howns name hname) hne

/-- What is produced stays produced, if not by the same page. -/
theorem Adds.produced (h : Adds config file r b after) (hs : b.Stored config recorded)
    (hnew : file ∉ recorded) {location : List Text}
    (hproduced : b.Produced config.outputDirectory location) :
    after.Produced config.outputDirectory location := by
  obtain ⟨other, page, hpage, howns, hshows⟩ := hproduced
  obtain ⟨hother, rfl, -⟩ := hs.pages other page hpage
  have hne : page.file ≠ file := fun heq ↦ hnew (heq ▸ hother)
  obtain ⟨artifacts, hreceives, hartifacts⟩ := h.tree
  rcases hreceives.shows hshows with hstill | hover
  · exact ⟨page.file, page, (h.hasPage_of_ne hne).mpr hpage, h.owns howns hne, hstill⟩
  · exact hartifacts location hover

/-- **Recording a file keeps the places filled.** -/
theorem Stored.step (hs : b.Stored config recorded) (hnew : file ∉ recorded)
    (h : Adds config file r b after) : after.Stored config (recorded ++ [file]) where
  pages other page hpage := by
    by_cases hne : other = file
    · obtain ⟨r', hr', hpage'⟩ := hpage
      rw [hne] at hr' ⊢
      rw [← h.eq_of_get? hr'] at hpage'
      exact ⟨List.mem_append_right _ (List.mem_singleton_self _), h.page page hpage'⟩
    · obtain ⟨hmem, hrest⟩ := hs.pages other page ((h.hasPage_of_ne hne).mp hpage)
      exact ⟨List.mem_append_left _ hmem, hrest⟩
  owners name owner hget := by
    rcases h.new name owner hget with rfl | hold
    · exact List.mem_append_right _ (List.mem_singleton_self _)
    · exact List.mem_append_left _ (hs.owners name owner hold)
  owned other page hsuccess := by
    by_cases hne : other = file
    · exact (h.of_succeeds (hne ▸ hsuccess)).1
    · have hold := (h.succeeds_of_ne hne).mp hsuccess
      obtain ⟨-, rfl, -⟩ := hs.pages other page hold.hasPage
      exact h.owns (hs.owned _ page hold) hne
  filled other page hsuccess artifact hartifact := by
    by_cases hne : other = file
    · exact (h.of_succeeds (hne ▸ hsuccess)).2 artifact hartifact
    · have hold := (h.succeeds_of_ne hne).mp hsuccess
      obtain ⟨location, hlocate, hproduced⟩ := hs.filled other page hold artifact hartifact
      obtain ⟨artifacts, hreceives, -⟩ := h.tree
      exact ⟨location, hreceives.locate hlocate, h.produced hs hnew hproduced⟩

/-! ## Recording -/

theorem adds_of_errors (hresults : after.results = OrderedMap.put file r b.results)
    (hpage : ∀ page, r.page = some page → page.file = file ∧ page.OfSource config.options)
    (herrors : r.errors ≠ []) (houtputs : after.outputs = b.outputs) (htree : after.tree = b.tree) :
    Adds config file r b after where
  results := hresults
  page := hpage
  kept name owner h _ := houtputs ▸ h
  new name owner h := .inr (houtputs ▸ h)
  tree := by
    refine ⟨[], htree ▸ .refl _, fun location h ↦ ?_⟩
    obtain ⟨artifact, hmem, -⟩ := h
    exact absurd hmem List.not_mem_nil
  success h := absurd h herrors

theorem get?_foldl_put (names : List Text) (owner name : Text) (outputs : OrderedMap Text) :
    OrderedMap.get? (names.foldl (fun m n ↦ OrderedMap.put n owner m) outputs) name =
      if name ∈ names then some owner else OrderedMap.get? outputs name := by
  induction names using List.reverseRecOn with
  | nil => rfl
  | append_singleton names last ih =>
    rw [List.foldl_append, List.foldl_cons, List.foldl_nil]
    by_cases hlast : name = last
    · rw [hlast, OrderedMap.get?_put_self, if_pos (by simp)]
    · rw [OrderedMap.get?_put_of_ne hlast, ih]
      simp [hlast]

theorem eq_file_of_clash?_eq_none (h : b.clash? page = none) {name owner : Text}
    (hname : name ∈ page.artifactNames) (howner : OrderedMap.get? b.outputs name = some owner) :
    owner = page.file := by
  have hnone := List.findSome?_eq_none_iff.mp h name hname
  by_contra hne
  simp only [howner, if_neg hne] at hnone
  cases hnone

theorem mem_artifactNames_of_clash? {name owner : Text} (h : b.clash? page = some (name, owner)) :
    name ∈ page.artifactNames ∧ OrderedMap.get? b.outputs name = some owner := by
  obtain ⟨found, hfound, heq⟩ := List.exists_of_findSome?_eq_some h
  split at heq
  · next other hother =>
    split_ifs at heq
    obtain ⟨rfl, rfl⟩ := Prod.mk.inj (Option.some.inj heq)
    exact ⟨hfound, hother⟩
  · cases heq

/-- A page that is owned and then written, all of it or not. -/
theorem adds_of_owned (hclash : b.clash? page = none) (hsource : page.OfSource config.options)
    (hresults : after.results = OrderedMap.put page.file r b.results) (hpage : r.page = some page)
    (houtputs : after.outputs = (b.own page).outputs)
    (htree : after.tree = (page.write config.outputDirectory b.tree).1)
    (hwritten : r.errors = [] → ∃ paths, (page.write config.outputDirectory b.tree).2 = .ok paths) :
    Adds config page.file r b after := by
  have howns : after.Owns page := by
    intro name hname
    rw [houtputs, own, get?_foldl_put, if_pos hname]
  have hhas : HasPage after.results page.file page :=
    ⟨r, by rw [hresults, OrderedMap.get?_put_self], hpage⟩
  obtain ⟨hreceives, hall⟩ :=
    FileTree.receives_writeArtifacts b.tree config.outputDirectory
      (List.Subset.refl page.artifacts)
  have hproduced : ∀ location,
      after.tree.Shows config.outputDirectory page.artifacts location →
      after.Produced config.outputDirectory location :=
    fun location h ↦ ⟨page.file, page, hhas, howns, h⟩
  refine ⟨hresults, ?_, fun name owner h hne ↦ ?_, fun name owner h ↦ ?_,
    ⟨page.artifacts, htree ▸ hreceives, hproduced⟩, fun herrors other hother ↦ ?_⟩
  · intro other hother
    obtain rfl : page = other := Option.some.inj (hpage.symm.trans hother)
    exact ⟨rfl, hsource⟩
  · rw [houtputs, own, get?_foldl_put, if_neg, h]
    exact fun hname ↦ hne (eq_file_of_clash?_eq_none hclash hname h)
  · rw [houtputs, own, get?_foldl_put] at h
    split_ifs at h
    · exact .inl (Option.some.inj h).symm
    · exact .inr h
  · obtain rfl : page = other := Option.some.inj (hpage.symm.trans hother)
    obtain ⟨paths, hpaths⟩ := hwritten herrors
    refine ⟨howns, fun artifact hartifact ↦ ?_⟩
    obtain ⟨location, hlocate, hshows⟩ := hall paths hpaths artifact hartifact
    rw [← Compiled.write, ← htree] at hlocate hshows
    exact ⟨location, hlocate, hproduced location hshows⟩

/-- Recording what came of compiling a file adds its result, unless it gives the build up. -/
theorem exists_adds_record {result : Except CompileError Compiled}
    (hresult : ∀ page, result = .ok page → page.file = file ∧ page.OfSource config.options)
    (h : (record config true b file result).failure = none) :
    ∃ r, Adds config file r b (record config true b file result) := by
  have hrecorded := recorded_record config true b file result
  generalize record config true b file result = after at hrecorded h ⊢
  cases hrecorded with
  | rejected d =>
    exact ⟨_, adds_of_errors rfl (fun page hpage ↦ by cases hpage) (List.cons_ne_nil _ _) rfl rfl⟩
  | abandoned _ _ _ => cases h
  | @clash page =>
    obtain ⟨rfl, hsource⟩ := hresult page rfl
    refine ⟨_, adds_of_errors (OrderedMap.put_put _ _ _ _) (fun other hother ↦ ?_)
      (List.cons_ne_nil _ _) rfl rfl⟩
    obtain rfl : page = other := Option.some.inj hother
    exact ⟨rfl, hsource⟩
  | unasked _ hwrite => cases hwrite
  | @written page _ paths hclash _ hwrite =>
    obtain ⟨rfl, hsource⟩ := hresult page rfl
    refine ⟨_, adds_of_owned hclash hsource rfl rfl rfl ?_ fun _ ↦ ⟨paths, ?_⟩⟩
    · rw [hwrite]
    · rw [hwrite]
  | @unwritten page _ _ hclash _ hwrite _ =>
    obtain ⟨rfl, hsource⟩ := hresult page rfl
    refine ⟨_, adds_of_owned hclash hsource (OrderedMap.put_put _ _ _ _) rfl rfl ?_
      fun herrors ↦ absurd herrors (List.cons_ne_nil _ _)⟩
    rw [hwrite]
    rfl
  | nowhere _ _ _ _ => cases h

/-! ## Runs -/

/-- What holds at every stage of the places of artifacts, unless the build was given up. -/
structure Stage.Filled (config : BuildConfig) (stage : Stage) : Prop where
  compiled : ∀ file page, (file, Except.ok page) ∈ stage.ended → page.OfSource config.options
  stored : stage.build.failure = none → stage.build.Stored config stage.build.schedule.recorded

theorem Stored.of_sameRecords {b' : Build} (hs : b'.Stored config recorded)
    (h : SameRecords b b') : b.Stored config recorded := by
  obtain ⟨tree, schedule, registry, results, findings, outputs, written, notes, failure⟩ := b
  obtain ⟨rfl, rfl, -, rfl, -⟩ := h
  exact ⟨hs.pages, hs.owners, hs.owned, hs.filled⟩

/-- A delivery keeps the places of artifacts filled, and what leads to an artifact still leads to
one. -/
theorem Stored.deliver {d : Delivery} (hs : b.Stored config recorded) (hnew : d.file ∉ recorded)
    (hsource : ∀ page, d = .compiled page → page.OfSource config.options)
    (hnone : (deliver config true b d).failure = none) :
    (deliver config true b d).Stored config (recorded ++ [d.file]) ∧
      ∀ path location, b.tree.locate path = .ok location →
        b.Produced config.outputDirectory location →
        (deliver config true b d).tree.locate path = .ok location ∧
          (deliver config true b d).Produced config.outputDirectory location := by
  obtain ⟨r, hadds⟩ := exists_adds_record (fun page hpage ↦
    ⟨Delivery.file_of_result hpage, hsource page (Delivery.eq_of_result hpage)⟩) hnone
  refine ⟨hs.step hnew hadds, fun path location hlocate hproduced ↦ ?_⟩
  obtain ⟨artifacts, hreceives, -⟩ := hadds.tree
  exact ⟨hreceives.locate hlocate, hadds.produced hs hnew hproduced⟩

theorem Stored.deliverAll {ds : List Delivery} (hs : b.Stored config recorded)
    (hfiles : (recorded ++ ds.map Delivery.file).Nodup)
    (hsource : ∀ page, Delivery.compiled page ∈ ds → page.OfSource config.options)
    (hnone : (deliverAll config true b ds).failure = none) :
    (deliverAll config true b ds).Stored config (recorded ++ ds.map Delivery.file) ∧
      ∀ path location, b.tree.locate path = .ok location →
        b.Produced config.outputDirectory location →
        (deliverAll config true b ds).tree.locate path = .ok location ∧
          (deliverAll config true b ds).Produced config.outputDirectory location := by
  induction ds generalizing b recorded with
  | nil =>
    rw [List.map_nil, List.append_nil]
    exact ⟨hs, fun _ _ hlocate hproduced ↦ ⟨hlocate, hproduced⟩⟩
  | cons d rest ih =>
    rw [List.map_cons, List.append_cons] at hfiles
    have hnew : d.file ∉ recorded := by
      intro hmem
      exact (List.nodup_append.mp (List.nodup_append.mp hfiles).1).2.2 _ hmem _
        (List.mem_singleton_self _) rfl
    obtain ⟨hstep, hkept⟩ := hs.deliver hnew
      (fun page hpage ↦ hsource page (hpage ▸ List.mem_cons_self)) (failure_of_deliverAll hnone)
    obtain ⟨hrest, hkept'⟩ := ih hstep hfiles
      (fun page hpage ↦ hsource page (List.mem_cons_of_mem _ hpage)) hnone
    rw [List.map_cons, List.append_cons]
    refine ⟨hrest, fun path location hlocate hproduced ↦ ?_⟩
    obtain ⟨hlocate', hproduced'⟩ := hkept path location hlocate hproduced
    exact hkept' path location hlocate' hproduced'

/-- Before the first file is compiled there are no pages, and nothing belongs to anybody. -/
theorem stored_foldl_readSource (config : BuildConfig) (tree : FileTree) (files : List Path) :
    (files.foldl readSource ({ tree }, [])).1.Stored config [] := by
  have hread :
      (∀ file page, ¬ HasPage (files.foldl readSource ({ tree }, [])).1.results file page) ∧
        (files.foldl readSource ({ tree }, [])).1.outputs = [] := by
    induction files using List.reverseRecOn with
    | nil =>
      refine ⟨fun file page h ↦ ?_, rfl⟩
      obtain ⟨r, hr, -⟩ := h
      cases hr
    | append_singleton files path ih =>
      rw [List.foldl_append, List.foldl_cons, List.foldl_nil]
      generalize files.foldl readSource ({ tree }, []) = state at ih
      rw [readSource]
      split
      · exact ih
      · exact ih
      · refine ⟨fun file page h ↦ ?_, ih.2⟩
        obtain ⟨r, hr, hpage⟩ := h
        by_cases hne : file = path.toText
        · rw [hne, OrderedMap.get?_put_self] at hr
          obtain rfl := Option.some.inj hr
          cases hpage
        · rw [OrderedMap.get?_put_of_ne hne] at hr
          exact ih.1 file page ⟨r, hr, hpage⟩
  obtain ⟨hpages, houtputs⟩ := hread
  refine ⟨fun file page h ↦ absurd h (hpages file page), fun name owner h ↦ ?_, fun file page h ↦
    absurd h.hasPage (hpages file page), fun file page h ↦ absurd h.hasPage (hpages file page)⟩
  rw [houtputs] at h
  cases h

namespace Loop

variable {tree : FileTree} {files : List Path} (loop : Loop config tree files)

theorem stored_read : loop.read.Stored config [] := by
  have hread := stored_foldl_readSource config tree files
  rwa [loop.read_eq] at hread

theorem filled_of_reaches {stage : Stage} (h : loop.Reaches true stage) :
    stage.Filled config := by
  refine ⟨loop.ofSource_of_reaches h, fun hnone ↦ ?_⟩
  have hrecorded := loop.nodup_recorded h
  obtain ⟨ds, hfiles, hsource, hsame⟩ := loop.exists_deliveries h hnone
  rw [← hfiles] at hrecorded ⊢
  have hstored := loop.stored_read.deliverAll hrecorded hsource (hsame.failure.symm.trans hnone)
  exact hstored.1.of_sameRecords hsame

end Loop

/-! ## What is found there -/

theorem HasPage.unique {results : OrderedMap FileResult} {other : Compiled}
    (h : HasPage results file page) (h' : HasPage results file other) : page = other := by
  obtain ⟨r, hr, hpage⟩ := h
  obtain ⟨r', hr', hpage'⟩ := h'
  obtain rfl : r = r' := Option.some.inj (hr.symm.trans hr')
  exact Option.some.inj (hpage.symm.trans hpage')

/-- Pages that have the name of an artifact in common, and own it, are one page. -/
theorem Stored.eq_of_toText_eq {other : Text} {otherPage : Compiled}
    (hs : b.Stored config recorded) (h : HasPage b.results file page) (howns : b.Owns page)
    (h' : HasPage b.results other otherPage) (howns' : b.Owns otherPage)
    {artifact : Text × Text} (hmem : artifact ∈ page.artifacts)
    {artifact' : Text × Text} (hmem' : artifact' ∈ otherPage.artifacts)
    (heq : (Path.ofText artifact.1).toText = (Path.ofText artifact'.1).toText) :
    file = other ∧ page = otherPage := by
  have howner := howns _ (List.mem_map_of_mem hmem)
  have howner' := howns' _ (List.mem_map_of_mem hmem')
  dsimp only at howner howner'
  obtain ⟨-, rfl, -⟩ := hs.pages file page h
  obtain ⟨-, rfl, -⟩ := hs.pages other otherPage h'
  rw [heq, howner'] at howner
  have hfile : page.file = otherPage.file := (Option.some.inj howner).symm
  rw [← hfile] at h'
  exact ⟨hfile, h.unique h'⟩

theorem mem_artifacts {artifact : Text × Text} : artifact ∈ page.artifacts ↔
    artifact = (page.outputName, page.html) ∨
      ∃ name, page.externalFile? = some name ∧ artifact = (name, page.script) := by
  rw [Compiled.artifacts, List.mem_cons, List.mem_map]
  simp only [Option.mem_toList, eq_comm]

/-- Whether the script of a file was overwritten: another page has a script by another name, one of
the two names leads up or starts at the root, and both lead to one file, where the script of that
page is. -/
def ScriptOverwritten (b : Build) (directory : Path) (file name : Text) : Prop :=
  ∃ other otherPage otherName, other ≠ file ∧ HasPage b.results other otherPage ∧
    otherPage.externalFile? = some otherName ∧
    (Path.ofText otherName).toText ≠ (Path.ofText name).toText ∧
    ¬ ((Path.ofText name).IsPlain ∧ (Path.ofText otherName).IsPlain) ∧
    (∃ location, b.tree.locate (directory.appendText name) = .ok location ∧
      b.tree.locate (directory.appendText otherName) = .ok location) ∧
    b.tree.readBytes (directory.appendText name) = .ok (Utf8.encode otherPage.script)

/-- Where the name of a document leads there is the document, if there is an artifact at all. -/
theorem Stored.readBytes_of_produced (hs : b.Stored config recorded)
    (h : HasPage b.results file page) (howns : b.Owns page) {location : List Text}
    (hlocate : b.tree.locate (config.outputDirectory.appendText page.outputName) = .ok location)
    (hproduced : b.Produced config.outputDirectory location) :
    b.tree.readBytes (config.outputDirectory.appendText page.outputName) =
      .ok (Utf8.encode page.html) := by
  obtain ⟨-, -, hsource⟩ := hs.pages file page h
  have hnamed := hsource.named
  obtain ⟨other, otherPage, hother, howns', artifact, hartifact, hlocate', hat⟩ := hproduced
  obtain ⟨-, -, hsource'⟩ := hs.pages other otherPage hother
  have hnamed' := hsource'.named
  rcases mem_artifacts.mp hartifact with rfl | ⟨name, hname, rfl⟩
  · have heq := FileTree.eq_of_locate hnamed.isPlain_outputName hnamed'.isPlain_outputName hlocate
      hlocate'
    obtain ⟨-, rfl⟩ := hs.eq_of_toText_eq h howns hother howns' (mem_artifacts.mpr (.inl rfl))
      hartifact (congrArg Path.toText heq)
    exact FileTree.readBytes_of_at? hlocate hat
  · exact absurd hlocate' (hnamed.locate_outputName_ne hnamed' hname hlocate)

theorem Stored.readBytes_document (hs : b.Stored config recorded)
    (h : Succeeds b.results file page) :
    b.tree.readBytes (config.outputDirectory.appendText page.outputName) =
      .ok (Utf8.encode page.html) := by
  obtain ⟨location, hlocate, hproduced⟩ :=
    hs.filled file page h (page.outputName, page.html) (mem_artifacts.mpr (.inl rfl))
  exact hs.readBytes_of_produced h.hasPage (hs.owned file page h) hlocate hproduced

theorem Stored.readBytes_script (hs : b.Stored config recorded)
    (h : Succeeds b.results file page) {name : Text} (hname : page.externalFile? = some name) :
    b.tree.readBytes (config.outputDirectory.appendText name) = .ok (Utf8.encode page.script) ∨
      b.ScriptOverwritten config.outputDirectory file name := by
  obtain ⟨-, -, hsource⟩ := hs.pages file page h.hasPage
  have hnamed := hsource.named
  have hmem : (name, page.script) ∈ page.artifacts := mem_artifacts.mpr (.inr ⟨name, hname, rfl⟩)
  obtain ⟨location, hlocate, other, otherPage, hother, howns, artifact, hartifact, hlocate', hat⟩ :=
    hs.filled file page h _ hmem
  obtain ⟨-, -, hsource'⟩ := hs.pages other otherPage hother
  have hnamed' := hsource'.named
  rcases mem_artifacts.mp hartifact with rfl | ⟨otherName, hotherName, rfl⟩
  · exact absurd hlocate (hnamed'.locate_outputName_ne hnamed hname hlocate')
  by_cases hfile : other = file
  · left
    rw [hfile] at hother
    obtain rfl := h.hasPage.unique hother
    exact FileTree.readBytes_of_at? hlocate hat
  · right
    have hnames : (Path.ofText otherName).toText ≠ (Path.ofText name).toText := fun heq ↦
      hfile (hs.eq_of_toText_eq hother howns h.hasPage (hs.owned file page h) hartifact hmem heq).1
    refine ⟨other, otherPage, otherName, hfile, hother, hotherName, hnames, ?_,
      ⟨location, hlocate, hlocate'⟩, FileTree.readBytes_of_at? hlocate hat⟩
    rintro ⟨hplain, hplain'⟩
    exact hnames (congrArg Path.toText (FileTree.eq_of_locate hplain' hplain hlocate' hlocate))

theorem exists_succeeds_of_mem {g : ImportGraph} {stage : Stage} (hs : stage.Sound g)
    (h : file ∈ stage.build.succeeded) : ∃ page, Succeeds stage.build.results file page := by
  obtain ⟨⟨f, r⟩, hmem, rfl⟩ := List.mem_map.mp h
  obtain ⟨hresult, hsuccess⟩ := List.mem_filter.mp hmem
  dsimp only at hsuccess
  rw [FileResult.success, Bool.and_eq_true, List.isEmpty_iff] at hsuccess
  obtain ⟨page, hpage⟩ := Option.isSome_iff_exists.mp hsuccess.1
  exact ⟨page, r, OrderedMap.get?_of_mem hs.nodup_results hresult, hpage, hsuccess.2⟩

/-- **Artifacts stay where they were written, but for scripts with two names.** At every stage of
every run that writes and is not given up, a file that succeeded has a page; its document is in the
output directory under its name, byte for byte; and so is its script file, if it has one, unless
another page has a script whose different name leads to that same file, which takes a name that
leads up or starts at the root. -/
theorem Loop.artifacts_stay_but_scripts_with_two_names {tree : FileTree} {files : List Path}
    (loop : Loop config tree files) {stage : Stage} (hreach : loop.Reaches true stage)
    (hnone : stage.build.failure = none) {file : Text} (hfile : file ∈ stage.build.succeeded) :
    ∃ page, HasPage stage.build.results file page ∧ page.file = file ∧
      stage.build.tree.readBytes (config.outputDirectory.appendText page.outputName) =
        .ok (Utf8.encode page.html) ∧
      ∀ name, page.externalFile? = some name →
        stage.build.tree.readBytes (config.outputDirectory.appendText name) =
            .ok (Utf8.encode page.script) ∨
          stage.build.ScriptOverwritten config.outputDirectory file name := by
  have hstored := (loop.filled_of_reaches hreach).stored hnone
  obtain ⟨page, hpage⟩ := exists_succeeds_of_mem (loop.sound_of_reaches hreach) hfile
  exact ⟨page, hpage.hasPage, (hstored.pages file page hpage.hasPage).2.1,
    hstored.readBytes_document hpage, fun name ↦ hstored.readBytes_script hpage⟩

/-- A build that is not given up ends where some run comes to rest. -/
theorem exists_stage_of_run {write : Bool} {tree : FileTree} {files : List Path}
    (h : (run config write tree files).failure = none) :
    ∃ (loop : Loop config tree files) (stage : Stage), loop.Reaches write stage ∧
      (¬ ∃ next, loop.Step write stage next) ∧ stage.build.failure = none ∧
      run config write tree files = stage.build.say stage.build.endNote := by
  rcases loop_or_failure config write tree files with ⟨⟨loop⟩⟩ | ⟨hfailure, -⟩
  · obtain ⟨stage, hreach, hlast, heq⟩ := loop.exists_run write
    refine ⟨loop, stage, hreach, hlast, ?_⟩
    split_ifs at heq with hfailure
    · rw [heq] at h
      rw [h] at hfailure
      cases hfailure
    · exact ⟨Option.not_isSome_iff_eq_none.mp hfailure, heq⟩
  · exact absurd h hfailure

/-- Two pages that ask for files for their scripts. -/
def twoScripts (first second : Text) : FileTree where
  nodes :=
    [(["a.mtm"], .file (Utf8.encode
      ("---\nroute: /a\ncompileJsMode: " ++ first ++ "\n---\n<template>a</template>"))),
     (["b.mtm"], .file (Utf8.encode
      ("---\nroute: /b\ncompileJsMode: " ++ second ++ "\n---\n<template>b</template>")))]

def twoScriptsPaths : List Path := [Path.ofText "a.mtm", Path.ofText "b.mtm"]

theorem two_scripts_stay :
    ∃ (loop : Loop {} (twoScripts "app.js" "x/../b.js") twoScriptsPaths) (stage : Stage),
      loop.Reaches true stage ∧ ("b.mtm" : Text) ∈ stage.build.succeeded ∧
        ∃ page, HasPage stage.build.results "b.mtm" page ∧
          page.externalFile? = some ("x/../b.js" : Text) ∧
          stage.build.tree.readBytes (Path.ofText "dist/b.html") = .ok (Utf8.encode page.html) := by
  have hrun : (run {} true (twoScripts "app.js" "x/../b.js") twoScriptsPaths).failure = none ∧
      ("b.mtm" : Text) ∈
        (run {} true (twoScripts "app.js" "x/../b.js") twoScriptsPaths).succeeded ∧
      ((OrderedMap.get? (run {} true (twoScripts "app.js" "x/../b.js") twoScriptsPaths).results
        "b.mtm").bind FileResult.page).any
          (fun page ↦ page.outputName = ("b.html" : Text) ∧
            page.externalFile? = some ("x/../b.js" : Text)) = true := by decide +kernel
  obtain ⟨hnone, hsucceeded, hpages⟩ := hrun
  obtain ⟨loop, stage, hreach, -, hnone', heq⟩ := exists_stage_of_run hnone
  rw [heq] at hsucceeded hpages
  obtain ⟨page, hpage, -, hdocument, -⟩ :=
    loop.artifacts_stay_but_scripts_with_two_names hreach hnone' hsucceeded
  obtain ⟨r, hr, hr'⟩ := hpage
  have hget : OrderedMap.get? (stage.build.say stage.build.endNote).results "b.mtm" = some r := hr
  rw [hget, Option.bind_some, hr', Option.any_some, decide_eq_true_iff] at hpages
  rw [hpages.1] at hdocument
  exact ⟨loop, stage, hreach, hsucceeded, page, ⟨r, hr, hr'⟩, hpages.2, hdocument⟩

/-- A script can be overwritten: where the name of a second script leads up and down again to the
file of the first, both pages succeed, and one of the two scripts is not there. -/
theorem detour_overwrites_script :
    ∃ (loop : Loop {} (twoScripts "app.js" "x/../app.js") twoScriptsPaths) (stage : Stage),
      loop.Reaches true stage ∧ (¬ ∃ next, loop.Step true stage next) ∧
        stage.build.failure = none ∧ stage.build.succeeded = [("a.mtm" : Text), ("b.mtm" : Text)] ∧
        ∃ file ∈ stage.build.succeeded, ∃ page name, HasPage stage.build.results file page ∧
          page.externalFile? = some name ∧
          stage.build.tree.readBytes ((Path.ofText "dist").appendText name) ≠
            .ok (Utf8.encode page.script) := by
  have hrun : (run {} true (twoScripts "app.js" "x/../app.js") twoScriptsPaths).failure = none ∧
      (run {} true (twoScripts "app.js" "x/../app.js") twoScriptsPaths).succeeded =
        [("a.mtm" : Text), ("b.mtm" : Text)] ∧
      (run {} true (twoScripts "app.js" "x/../app.js") twoScriptsPaths).tree.locate
          ((Path.ofText "dist").appendText "app.js") =
        (run {} true (twoScripts "app.js" "x/../app.js") twoScriptsPaths).tree.locate
          ((Path.ofText "dist").appendText "x/../app.js") := by
    decide +kernel
  have hnames : ((OrderedMap.get? (run {} true (twoScripts "app.js" "x/../app.js")
        twoScriptsPaths).results "a.mtm").bind FileResult.page).bind Compiled.externalFile? =
        some ("app.js" : Text) ∧
      ((OrderedMap.get? (run {} true (twoScripts "app.js" "x/../app.js")
        twoScriptsPaths).results "b.mtm").bind FileResult.page).bind Compiled.externalFile? =
        some ("x/../app.js" : Text) := by
    decide +kernel
  have hroutes : ((OrderedMap.get? (run {} true (twoScripts "app.js" "x/../app.js")
        twoScriptsPaths).results "a.mtm").bind FileResult.page).bind
          (fun page ↦ (Text.unlines (Script.metadataLines page.component))[53]?) = some 'a' ∧
      ((OrderedMap.get? (run {} true (twoScripts "app.js" "x/../app.js")
        twoScriptsPaths).results "b.mtm").bind FileResult.page).bind
          (fun page ↦ (Text.unlines (Script.metadataLines page.component))[53]?) = some 'b' := by
    decide +kernel
  obtain ⟨hnone, hsucceeded, hlocate⟩ := hrun
  obtain ⟨loop, stage, hreach, hlast, hnone', heq⟩ := exists_stage_of_run hnone
  rw [heq] at hsucceeded hlocate hnames hroutes
  have hstored := (loop.filled_of_reaches hreach).stored hnone'
  have hfound : ∀ file ∈ stage.build.succeeded, ∃ page, HasPage stage.build.results file page ∧
      (OrderedMap.get? (stage.build.say stage.build.endNote).results file).bind FileResult.page =
        some page := by
    intro file hfile
    obtain ⟨page, hpage⟩ := exists_succeeds_of_mem (loop.sound_of_reaches hreach) hfile
    exact ⟨page, hpage.hasPage, Option.bind_eq_some_iff.mpr hpage.hasPage⟩
  have hsucceeded' : stage.build.succeeded = [("a.mtm" : Text), ("b.mtm" : Text)] := hsucceeded
  have hfirst : ("a.mtm" : Text) ∈ stage.build.succeeded := by simp [hsucceeded']
  have hsecond : ("b.mtm" : Text) ∈ stage.build.succeeded := by simp [hsucceeded']
  obtain ⟨page, hpage, hget⟩ := hfound _ hfirst
  obtain ⟨page', hpage', hget'⟩ := hfound _ hsecond
  rw [hget, hget', Option.bind_some, Option.bind_some] at hnames hroutes
  have hscripts : page.script ≠ page'.script :=
    Compiled.OfSource.script_ne_of_metadata (hstored.pages _ _ hpage).2.2
      (hstored.pages _ _ hpage').2.2 (by decide) hroutes.1 hroutes.2
  refine ⟨loop, stage, hreach, hlast, hnone', hsucceeded', ?_⟩
  -- Both names lead to one file, which cannot hold two different scripts.
  by_contra hall
  have hread : stage.build.tree.readBytes ((Path.ofText "dist").appendText "app.js") =
      .ok (Utf8.encode page.script) := by
    by_contra hnot
    exact hall ⟨_, hfirst, page, _, hpage, hnames.1, hnot⟩
  have hread' : stage.build.tree.readBytes ((Path.ofText "dist").appendText "x/../app.js") =
      .ok (Utf8.encode page'.script) := by
    by_contra hnot
    exact hall ⟨_, hsecond, page', _, hpage', hnames.2, hnot⟩
  have hsame := FileTree.readBytes_of_locate_eq hlocate hread
  exact hscripts (FileTree.encode_injective (Except.ok.inj (hsame.symm.trans hread')))

end Build

end PageCompiler
