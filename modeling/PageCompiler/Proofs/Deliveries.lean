import PageCompiler.Proofs.BuildRuns
import PageCompiler.Proofs.CompiledPages

/-!
# Deliveries

In a run of a build the compilations go on side by side, but what came of them is recorded by one
hand, file after file. Each time the build takes a *delivery*: the page of a file, or the problem
with it. Whatever the order of the moves of a run, the results it has, the owners of artifacts, what
was written and the files are those of recording its deliveries one after the other
(`Build.Loop.exists_deliveries`), so that what is to be known about these is an induction over a
list.
-/

namespace PageCompiler

open Relation

namespace Build

/-- What came of compiling a file, where the build goes on: its page, or the problem with it. -/
inductive Delivery where
  | compiled (page : Compiled)
  /-- The problem with a file that has no page. -/
  | rejected (file : Text) (d : Diagnostic)

def Delivery.file : Delivery → Text
  | compiled page => page.file
  | rejected file _ => file

def Delivery.result : Delivery → Except CompileError Compiled
  | compiled page => .ok page
  | rejected _ d => .error (.rejected d)

def deliver (config : BuildConfig) (write : Bool) (b : Build) (d : Delivery) : Build :=
  record config write b d.file d.result

def deliverAll (config : BuildConfig) (write : Bool) (b : Build) (ds : List Delivery) : Build :=
  ds.foldl (deliver config write) b

variable {config : BuildConfig} {write : Bool} {b : Build} {d : Delivery} {page : Compiled}
variable {file : Text} {ds : List Delivery}

theorem file_mem (h : Delivery.compiled page ∈ ds) : page.file ∈ ds.map Delivery.file :=
  List.mem_map.mpr ⟨.compiled page, h, rfl⟩

theorem deliverAll_cons (b : Build) (d : Delivery) (ds : List Delivery) :
    deliverAll config write b (d :: ds) =
      deliverAll config write (deliver config write b d) ds := rfl

theorem deliverAll_append (b : Build) (front back : List Delivery) :
    deliverAll config write b (front ++ back) =
      deliverAll config write (deliverAll config write b front) back := List.foldl_append

theorem deliverAll_concat (b : Build) (ds : List Delivery) (d : Delivery) :
    deliverAll config write b (ds ++ [d]) =
      deliver config write (deliverAll config write b ds) d := deliverAll_append b ds [d]

theorem Delivery.eq_of_result (h : d.result = .ok page) : d = compiled page := by
  cases d with
  | compiled _ => rw [Except.ok.inj h]
  | rejected _ _ => cases h

theorem Delivery.file_of_result (h : d.result = .ok page) : page.file = d.file := by
  rw [eq_of_result h]
  rfl

theorem get?_results_deliver (config : BuildConfig) (write : Bool) (b : Build) (d : Delivery)
    (hne : file ≠ d.file) :
    OrderedMap.get? (deliver config write b d).results file = OrderedMap.get? b.results file := by
  have hrecord := @records_record config write b d.file d.result fun _ ↦ Delivery.file_of_result
  rcases hrecord with hrecords | ⟨e, he⟩
  · obtain ⟨r, -, hr⟩ := hrecords.results_eq
    rw [deliver, hr, OrderedMap.get?_put_of_ne hne]
  · rw [deliver, he]

theorem get?_results_deliverAll (b : Build) (hnew : file ∉ ds.map Delivery.file) :
    OrderedMap.get? (deliverAll config write b ds).results file =
      OrderedMap.get? b.results file := by
  induction ds generalizing b with
  | nil => rfl
  | cons d rest ih =>
    rw [List.map_cons, List.mem_cons, not_or] at hnew
    exact (ih _ hnew.2).trans (get?_results_deliver config write b d hnew.1)

theorem failure_of_deliver (h : (deliver config write b d).failure = none) : b.failure = none := by
  have hrecorded := recorded_record config write b d.file d.result
  rw [← deliver] at hrecorded
  generalize d.result = result at hrecorded
  generalize deliver config write b d = after at hrecorded h
  cases hrecorded with
  | rejected _ => exact h
  | abandoned _ _ _ => cases h
  | clash _ => exact h
  | unasked _ _ => exact h
  | written _ _ _ => exact h
  | unwritten _ _ _ _ => exact h
  | nowhere _ _ _ _ => cases h

theorem failure_of_deliverAll (h : (deliverAll config write b ds).failure = none) :
    b.failure = none := by
  induction ds generalizing b with
  | nil => exact h
  | cons d rest ih => exact failure_of_deliver (ih h)

/-! ## Runs are rows of deliveries -/

/-- Whether two builds agree in what recording reads and writes. -/
structure SameRecords (b b' : Build) : Prop where
  results : b.results = b'.results
  outputs : b.outputs = b'.outputs
  written : b.written = b'.written
  tree : b.tree = b'.tree
  failure : b.failure = b'.failure

theorem SameRecords.trans {b' b'' : Build} (h : SameRecords b b') (h' : SameRecords b' b'') :
    SameRecords b b'' :=
  ⟨h.results.trans h'.results, h.outputs.trans h'.outputs, h.written.trans h'.written,
    h.tree.trans h'.tree, h.failure.trans h'.failure⟩

theorem SameRecords.clash? {b' : Build} (h : SameRecords b b') (page : Compiled) :
    b.clash? page = b'.clash? page := by
  rw [Build.clash?, Build.clash?, h.outputs]

theorem SameRecords.own {b' : Build} (h : SameRecords b b') (page : Compiled) :
    SameRecords ((b.collect page).own page) ((b'.collect page).own page) where
  results := congrArg (OrderedMap.put page.file _) h.results
  outputs := congrArg (page.artifactNames.foldl fun m n ↦ OrderedMap.put n page.file m) h.outputs
  written := h.written
  tree := h.tree
  failure := h.failure

theorem SameRecords.fail {b' : Build} (h : SameRecords b b') (file : Text) (page : Option Compiled)
    (d : Diagnostic) : SameRecords (b.fail file page d) (b'.fail file page d) where
  results := congrArg (OrderedMap.put file _) h.results
  outputs := h.outputs
  written := h.written
  tree := h.tree
  failure := h.failure

theorem SameRecords.writePage {b' : Build} (h : SameRecords b b') (directory : Path)
    (page : Compiled) :
    SameRecords (b.writePage directory page) (b'.writePage directory page) := by
  rw [Build.writePage, Build.writePage, h.tree]
  split
  · exact ⟨h.results, h.outputs, by simp only [h.written], rfl, h.failure⟩
  · split_ifs
    · exact ⟨h.results, h.outputs, h.written, rfl, rfl⟩
    · apply SameRecords.fail
      exact ⟨h.results, h.outputs, h.written, rfl, h.failure⟩

theorem SameRecords.record {b' : Build} (h : SameRecords b b') (file : Text)
    (result : Except CompileError Compiled) :
    SameRecords (record config write b file result) (record config write b' file result) := by
  rcases result with (d | e | e) | page
  · exact h.fail file none d
  · exact ⟨h.results, h.outputs, h.written, h.tree, rfl⟩
  · exact ⟨h.results, h.outputs, h.written, h.tree, rfl⟩
  · rw [Build.record, Build.record]
    rw [recordPage, recordPage, clash?_collect, clash?_collect, h.clash?]
    split
    · apply SameRecords.fail
      exact ⟨congrArg (OrderedMap.put page.file _) h.results, h.outputs, h.written, h.tree,
        h.failure⟩
    · split_ifs
      · exact (h.own page).writePage _ _
      · exact h.own page

/-- Letting the files go on that waited for a file leaves everything else as it was recorded. -/
theorem sameRecords_recordNext (config : BuildConfig) (write : Bool) (g : ImportGraph) (b : Build)
    (file : Text) (result : Except CompileError Compiled) :
    SameRecords (recordNext config write g b file result) (record config write b file result) := by
  rw [recordNext]
  split_ifs
  · exact ⟨rfl, rfl, rfl, rfl, rfl⟩
  · exact ⟨rfl, rfl, rfl, rfl, rfl⟩

/-- What is recorded without giving the build up is a delivery. -/
theorem exists_delivery {result : Except CompileError Compiled}
    (hown : ∀ page, result = .ok page → page.file = file)
    (hnone : (record config write b file result).failure = none) :
    ∃ d : Delivery, d.file = file ∧ d.result = result := by
  rcases result with (problem | e | e) | page
  · exact ⟨.rejected file problem, rfl, rfl⟩
  · cases hnone
  · cases hnone
  · exact ⟨.compiled page, hown page rfl, rfl⟩

namespace Loop

variable {tree : FileTree} {files : List Path} (loop : Loop config tree files) {stage : Stage}

theorem ofSource_of_reaches (h : loop.Reaches write stage) :
    ∀ file page, (file, Except.ok page) ∈ stage.ended → page.OfSource config.options := by
  induction h with
  | refl => exact fun _ _ hmem ↦ absurd hmem List.not_mem_nil
  | tail _ hmove ih =>
    intro file page hmem
    rcases Move.mem_ended hmove hmem with hbefore | hpage
    · exact ih file page hbefore
    · exact ⟨_, _, _, _, hpage⟩

theorem nodup_recorded (h : loop.Reaches write stage) : stage.build.schedule.recorded.Nodup :=
  (List.nodup_append.mp (loop.sound_of_reaches h).schedule.nodup_submitted).1

/-- **A run is a row of deliveries.** Unless the build was given up, the results, the owners of
artifacts, what was written and the files are those of recording the files that are recorded, in
that order, from where the sources were read. -/
theorem exists_deliveries (h : loop.Reaches write stage) (hnone : stage.build.failure = none) :
    ∃ ds : List Delivery, ds.map Delivery.file = stage.build.schedule.recorded ∧
      (∀ page, Delivery.compiled page ∈ ds → page.OfSource config.options) ∧
      SameRecords stage.build (deliverAll config write loop.read ds) := by
  induction h with
  | refl =>
    exact ⟨[], rfl, fun _ hmem ↦ absurd hmem List.not_mem_nil, rfl, rfl, rfl, rfl, rfl⟩
  | @tail stage next hreach hmove ih =>
    obtain ⟨ds, hfiles, hsource, hsame⟩ := ih hmove.failure_eq_none
    cases hmove with
    | submit _ _ =>
      exact ⟨ds, hfiles, hsource, hsame.results, hsame.outputs, hsame.written, hsame.tree,
        hsame.failure⟩
    | compile _ _ _ =>
      exact ⟨ds, hfiles, hsource, hsame.results, hsame.outputs, hsame.written, hsame.tree,
        hsame.failure⟩
    | @record b front back file result _ =>
      have hmem : (file, result) ∈ front ++ (file, result) :: back := by simp
      have hown : ∀ page, result = .ok page → page.file = file := by
        rintro page rfl
        exact (loop.sound_of_reaches hreach).own file page hmem
      rcases recordNext_cases config write loop.kept b hown with ⟨-, hschedule, -⟩ | ⟨hgiven, -⟩
      · have hnext := sameRecords_recordNext config write loop.kept b file result
        obtain ⟨d, rfl, rfl⟩ := exists_delivery hown (hnext.failure.symm.trans hnone)
        refine ⟨ds ++ [d], ?_, fun page hpage ↦ ?_, ?_⟩
        · rw [List.map_append, hfiles, List.map_singleton]
          exact (congrArg Schedule.recorded hschedule).symm
        · rcases List.mem_append.mp hpage with hpage | hlast
          · exact hsource page hpage
          · obtain rfl := List.mem_singleton.mp hlast
            exact loop.ofSource_of_reaches hreach _ page hmem
        · rw [deliverAll_concat]
          exact hnext.trans (hsame.record d.file d.result)
      · exact absurd hnone hgiven

end Loop

end Build

end PageCompiler
