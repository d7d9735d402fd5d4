import PageCompiler.Proofs.BuildSteps
import PageCompiler.Proofs.Schedules

/-!
# Runs of a build

Files of a build are compiled side by side, and it is open which compilation ends next. Here a build
is a system of moves: submit what is ready, end the compilation of any submitted file, record any
file whose compilation has ended. A *run* makes such moves in any order, and the batches that
`Build.run` goes through are one run among many.

Whatever the order, a run submits a file once and after all the files it imports, it records a file
once, and it does not come to rest before every file that could be read is recorded, unless
recording a file gives the build up. That it does come to rest is seen by counting: every move
brings some file one step further, and there are three steps for a file.
-/

namespace PageCompiler

open Relation

namespace Build

/-- A build on its way, with what came of the compilations that have ended and are not recorded. -/
structure Stage where
  build : Build
  /-- The files whose compilation has ended, with what came of it. -/
  ended : OrderedMap (Except CompileError Compiled) := []

/-- What can happen next in a build that is not given up. -/
inductive Move (config : BuildConfig) (write : Bool) (g : ImportGraph) (sources : OrderedMap Text) :
    Stage → Stage → Prop
  | submit {b : Build} {ended : OrderedMap (Except CompileError Compiled)} :
    b.failure = none → b.schedule.ready ≠ [] →
    Move config write g sources ⟨b, ended⟩ ⟨{ b with schedule := b.schedule.submit }, ended⟩
  | compile {b : Build} {ended : OrderedMap (Except CompileError Compiled)} {file : Text} :
    b.failure = none → file ∈ b.schedule.pending → file ∉ OrderedMap.keys ended →
    Move config write g sources ⟨b, ended⟩
      ⟨(compileOne config sources b file).1,
        ended ++ [(file, (compileOne config sources b file).2)]⟩
  | record {b : Build} {front back : OrderedMap (Except CompileError Compiled)} {file : Text}
      {result : Except CompileError Compiled} :
    b.failure = none →
    Move config write g sources ⟨b, front ++ (file, result) :: back⟩
      ⟨recordNext config write g b file result, front ++ back⟩

/-- What holds at every stage. -/
structure Stage.Sound (g : ImportGraph) (stage : Stage) : Prop where
  schedule : stage.build.schedule.Sound g
  nodup_ended : (OrderedMap.keys stage.ended).Nodup
  pending : ∀ file ∈ OrderedMap.keys stage.ended, file ∈ stage.build.schedule.pending
  own : ∀ file page, (file, Except.ok page) ∈ stage.ended → page.file = file
  nodup_results : (OrderedMap.keys stage.build.results).Nodup
  results : ∀ file ∈ stage.build.schedule.recorded, file ∈ OrderedMap.keys stage.build.results

section Moves

variable {config : BuildConfig} {write : Bool} {g : ImportGraph} {sources : OrderedMap Text}
variable {stage next : Stage} {file : Text}

theorem Move.failure_eq_none (h : Move config write g sources stage next) :
    stage.build.failure = none := by
  cases h with
  | submit hnone _ => exact hnone
  | compile hnone _ _ => exact hnone
  | record hnone => exact hnone

/-- A file that is recorded has a result, and the files that waited for it go on; otherwise the
build is given up. -/
theorem recordNext_cases (config : BuildConfig) (write : Bool) (g : ImportGraph) (b : Build)
    {result : Except CompileError Compiled}
    (hown : ∀ page, result = .ok page → page.file = file) :
    ((recordNext config write g b file result).failure = none ∧
      (recordNext config write g b file result).schedule = b.schedule.record g file ∧
      file ∈ OrderedMap.keys (recordNext config write g b file result).results) ∨
    (recordNext config write g b file result).failure ≠ none ∧
      (recordNext config write g b file result).schedule = b.schedule := by
  rw [recordNext]
  split_ifs with hfailure
  · refine .inr ⟨Option.isSome_iff_ne_none.mp hfailure, ?_⟩
    rcases records_record hown with hrecords | ⟨e, he⟩
    · exact hrecords.schedule_eq
    · rw [he]
  · rw [Option.not_isSome_iff_eq_none] at hfailure
    rcases records_record hown with hrecords | ⟨e, he⟩
    · obtain ⟨r, -, hr⟩ := hrecords.results_eq
      refine .inl ⟨hfailure, by rw [hrecords.schedule_eq], ?_⟩
      rw [hr, OrderedMap.mem_keys_put]
      exact .inl rfl
    · rw [he] at hfailure
      exact nomatch hfailure

theorem results_recordNext (config : BuildConfig) (write : Bool) (g : ImportGraph) {b : Build}
    {result : Except CompileError Compiled}
    (hown : ∀ page, result = .ok page → page.file = file)
    (hnodup : (OrderedMap.keys b.results).Nodup) :
    (OrderedMap.keys (recordNext config write g b file result).results).Nodup ∧
      ∀ f ∈ OrderedMap.keys b.results,
        f ∈ OrderedMap.keys (recordNext config write g b file result).results := by
  have hresults : (recordNext config write g b file result).results =
      (Build.record config write b file result).results := by
    rw [recordNext]
    split_ifs <;> rfl
  rw [hresults]
  rcases records_record hown with hrecords | ⟨e, he⟩
  · obtain ⟨r, -, hr⟩ := hrecords.results_eq
    rw [hr]
    exact ⟨OrderedMap.nodup_keys_put hnodup _ _, fun f hf ↦ OrderedMap.mem_keys_put.mpr (.inr hf)⟩
  · rw [he]
    exact ⟨hnodup, fun _ ↦ id⟩

/-- What has ended after a move had ended before, or it is what compiling its file gives. -/
theorem Move.mem_ended {result : Except CompileError Compiled}
    (h : Move config write g sources stage next) (hmem : (file, result) ∈ next.ended) :
    (file, result) ∈ stage.ended ∨ (compileOne config sources stage.build file).2 = result := by
  cases h with
  | submit _ _ => exact .inl hmem
  | compile _ _ _ =>
    rcases List.mem_append.mp hmem with hmem | hlast
    · exact .inl hmem
    · obtain ⟨rfl, rfl⟩ := Prod.mk.inj (List.mem_singleton.mp hlast)
      exact .inr rfl
  | record _ => exact .inl (((List.sublist_cons_self _ _).append_left _).subset hmem)

/-- **Every move keeps what holds at every stage.** -/
theorem Move.sound (hnodup : (OrderedMap.keys g).Nodup) (hs : stage.Sound g)
    (h : Move config write g sources stage next) : next.Sound g := by
  have hown : ∀ file page, (file, Except.ok page) ∈ next.ended → page.file = file :=
    fun file page hmem ↦ (h.mem_ended hmem).elim (hs.own file page) file_of_compileOne
  cases h with
  | submit _ _ =>
    refine ⟨hs.schedule.submit, hs.nodup_ended, fun file hfile ↦ ?_, hown, hs.nodup_results,
      hs.results⟩
    exact List.mem_append_left _ (hs.pending file hfile)
  | @compile b ended file _ hpending hnew =>
    refine ⟨hs.schedule, ?_, fun f hf ↦ ?_, hown, hs.nodup_results, hs.results⟩
    · rw [OrderedMap.keys_append, List.nodup_append_comm]
      exact List.nodup_cons.mpr ⟨hnew, hs.nodup_ended⟩
    · rw [OrderedMap.keys_append] at hf
      rcases List.mem_append.mp hf with hf | hf
      · exact hs.pending f hf
      · rw [List.mem_singleton.mp hf]
        exact hpending
  | @record b front back file result _ =>
    have hown : ∀ page, result = .ok page → page.file = file := by
      rintro page rfl
      exact hs.own file page (by simp)
    have hfile : file ∈ b.schedule.pending := hs.pending file (by simp [OrderedMap.keys_append])
    -- The files that are left had ended before, and this one is not among them.
    have hless : (front ++ back).Sublist (front ++ (file, result) :: back) :=
      (List.sublist_cons_self _ _).append_left front
    have hnodup_ended : (OrderedMap.keys (front ++ back)).Nodup :=
      hs.nodup_ended.sublist (hless.map Prod.fst)
    have hpending : ∀ f ∈ OrderedMap.keys (front ++ back), f ∈ b.schedule.pending := fun f hf ↦
      hs.pending f ((hless.map Prod.fst).subset hf)
    have hkept : ∀ f page, (f, Except.ok page) ∈ front ++ back → page.file = f := fun f page hf ↦
      hs.own f page (hless.subset hf)
    have hgone : file ∉ OrderedMap.keys (front ++ back) := by
      have := hs.nodup_ended
      rw [OrderedMap.keys_append, OrderedMap.keys_cons, List.nodup_middle, List.nodup_cons] at this
      rw [OrderedMap.keys_append]
      exact this.1
    obtain ⟨hnodup_results, hresults⟩ := results_recordNext config write g hown hs.nodup_results
    rcases recordNext_cases config write g b hown with ⟨-, hschedule, hresult⟩ | ⟨-, hschedule⟩
    · refine ⟨?_, hnodup_ended, fun f hf ↦ ?_, hkept, hnodup_results, fun f hf ↦ ?_⟩
      · rw [hschedule]
        exact hs.schedule.record hnodup hfile
      · have hne : f ≠ file := fun heq ↦ hgone (heq ▸ hf)
        rw [hschedule]
        exact (List.mem_erase_of_ne hne).mpr (hpending f hf)
      · rw [hschedule] at hf
        rcases List.mem_append.mp hf with hf | hf
        · exact hresults f (hs.results f hf)
        · rw [List.mem_singleton.mp hf]
          exact hresult
    · refine ⟨?_, hnodup_ended, ?_, hkept, hnodup_results, fun f hf ↦ ?_⟩
      · rw [hschedule]
        exact hs.schedule
      · rw [hschedule]
        exact hpending
      · rw [hschedule] at hf
        exact hresults f (hs.results f hf)

theorem Move.mem_ready (hs : stage.Sound g) (h : Move config write g sources stage next)
    (hnext : file ∈ next.build.schedule.order) (hstage : file ∉ stage.build.schedule.order) :
    file ∈ stage.build.schedule.ready := by
  cases h with
  | submit _ _ => exact (List.mem_append.mp hnext).resolve_left hstage
  | compile _ _ _ => exact absurd hnext hstage
  | @record b front back recorded result _ =>
    have hown : ∀ page, result = .ok page → page.file = recorded := by
      rintro page rfl
      exact hs.own recorded page (by simp)
    rcases recordNext_cases config write g b hown with ⟨-, hschedule, -⟩ | ⟨-, hschedule⟩
    · rw [hschedule] at hnext
      exact absurd hnext hstage
    · rw [hschedule] at hnext
      exact absurd hnext hstage

/-- Only what came of compiling a file gives a build up. -/
theorem Move.givesUp (h : Move config write g sources stage next)
    (hfailure : next.build.failure ≠ none) :
    ∃ file result, (file, result) ∈ stage.ended ∧ GivesUp config write stage.build.tree result := by
  cases h with
  | submit hnone _ => exact absurd hnone hfailure
  | compile hnone _ _ => exact absurd hnone hfailure
  | @record b front back file result hnone =>
    have heq : (recordNext config write g b file result).failure =
        (Build.record config write b file result).failure := by
      rw [recordNext]
      split_ifs <;> rfl
    exact ⟨file, result, by simp, givesUp_of_failure hnone (heq ▸ hfailure)⟩

theorem Stage.Sound.reach (hnodup : (OrderedMap.keys g).Nodup) (hs : stage.Sound g)
    (h : ReflTransGen (Move config write g sources) stage next) : next.Sound g := by
  induction h with
  | refl => exact hs
  | tail _ hmove ih => exact hmove.sound hnodup ih

/-! ## Coming to rest -/

/-- A build that is not given up can go on exactly as long as there is a file that is not
recorded. -/
theorem exists_move_iff (hnodup : (OrderedMap.keys g).Nodup) (hacyclic : g.Acyclic)
    (hs : stage.Sound g) : (∃ next, Move config write g sources stage next) ↔
      stage.build.failure = none ∧ ∃ file ∈ g.files, file ∉ stage.build.schedule.recorded := by
  obtain ⟨b, ended⟩ := stage
  have hopen : ∀ file ∈ b.schedule.pending,
      ∃ file ∈ g.files, file ∉ b.schedule.recorded := fun file hfile ↦
    ⟨file, hs.schedule.known file (List.mem_append_right _
      (hs.schedule.mem_order_iff.mpr (.inr hfile))), hs.schedule.notMem_recorded hfile⟩
  constructor
  · rintro ⟨next, hmove⟩
    refine ⟨hmove.failure_eq_none, ?_⟩
    cases hmove with
    | submit _ hready =>
      obtain ⟨file, hfile⟩ := List.exists_mem_of_ne_nil _ hready
      refine ⟨file, hs.schedule.known file (List.mem_append_left _ hfile), fun hrecorded ↦ ?_⟩
      have horder := hs.schedule.mem_order_iff.mpr (.inl hrecorded)
      exact (List.nodup_append.mp hs.schedule.once).2.2 file hfile file horder rfl
    | compile _ hpending _ => exact hopen _ hpending
    | @record _ _ _ file => exact hopen file (hs.pending file (by simp [OrderedMap.keys_append]))
  · rintro ⟨hnone, file, hfile, hunrecorded⟩
    by_cases hready : b.schedule.ready = []
    · -- With nothing to submit some submitted file is not recorded: either its compilation has
      -- ended or it can.
      have hpending : b.schedule.pending ≠ [] := fun hpending ↦
        hunrecorded (hs.schedule.recorded_of_idle hnodup hacyclic hready hpending hfile)
      obtain ⟨other, hother⟩ := List.exists_mem_of_ne_nil _ hpending
      by_cases hended : other ∈ OrderedMap.keys ended
      · obtain ⟨result, hmem⟩ := OrderedMap.mem_keys.mp hended
        obtain ⟨front, back, rfl⟩ := List.append_of_mem hmem
        exact ⟨_, .record hnone⟩
      · exact ⟨_, .compile hnone hother hended⟩
    · exact ⟨_, .submit hnone hready⟩

/-- How far the files have come: a step for every file that is submitted, one for every compilation
that has ended, and one for every file that is recorded. -/
def Stage.steps (stage : Stage) : Nat :=
  stage.build.schedule.order.length + stage.ended.length +
    2 * stage.build.schedule.recorded.length

theorem Move.steps_lt (hs : stage.Sound g) (h : Move config write g sources stage next)
    (hnone : next.build.failure = none) : stage.steps < next.steps := by
  cases h with
  | submit _ hready =>
    have := List.length_pos_iff.mpr hready
    simp only [Stage.steps, Schedule.submit, List.length_append]
    omega
  | compile _ _ _ =>
    simp only [Stage.steps, compileOne, List.length_append, List.length_singleton]
    omega
  | @record b front back file result _ =>
    have hown : ∀ page, result = .ok page → page.file = file := by
      rintro page rfl
      exact hs.own file page (by simp)
    rcases recordNext_cases config write g b hown with ⟨-, hschedule, -⟩ | ⟨hfailure, -⟩
    · simp only [Stage.steps, hschedule, Schedule.record, List.length_append, List.length_cons,
        List.length_nil]
      omega
    · exact absurd hnone hfailure

theorem Stage.Sound.steps_le (hs : stage.Sound g) : stage.steps ≤ 3 * g.files.length := by
  have horder := hs.schedule.length_order_le
  have hsubmitted := hs.schedule.submitted.length_eq
  have hended := (List.subperm_of_subset hs.nodup_ended hs.pending).length_le
  rw [List.length_append] at hsubmitted
  rw [OrderedMap.keys, List.length_map] at hended
  rw [Stage.steps]
  omega

/-- No run is longer than three moves for every file, and one that gives the build up. -/
theorem length_le_of_isChain (hnodup : (OrderedMap.keys g).Nodup) (hs : stage.Sound g)
    {stages : List Stage} (h : (stage :: stages).IsChain (Move config write g sources)) :
    stage.steps + stages.length ≤ 3 * g.files.length + 1 := by
  induction stages generalizing stage with
  | nil => exact Nat.le_succ_of_le hs.steps_le
  | cons next rest ih =>
    obtain ⟨hmove, hrest⟩ := List.isChain_cons_cons.mp h
    have hnext := hmove.sound hnodup hs
    cases hfailure : next.build.failure with
    | none =>
      have := hmove.steps_lt hs hfailure
      have := ih hnext hrest
      rw [List.length_cons]
      omega
    | some e =>
      -- Nothing follows after a build is given up.
      have hlast : rest = [] := by
        cases rest with
        | nil => rfl
        | cons after _ =>
          have hnone := (List.isChain_cons_cons.mp hrest).1.failure_eq_none
          rw [hfailure] at hnone
          exact nomatch hnone
      have := hs.steps_le
      rw [hlast]
      simpa using this

/-! ## Batches are runs -/

theorem steps_le_of_reach (hnodup : (OrderedMap.keys g).Nodup) (hs : stage.Sound g)
    (h : ReflTransGen (Move config write g sources) stage next)
    (hnone : next.build.failure = none) : stage.steps ≤ next.steps := by
  induction h with
  | refl => exact Nat.le_refl _
  | tail hreach hmove ih =>
    have := hmove.steps_lt (hs.reach hnodup hreach) hnone
    have := ih hmove.failure_eq_none
    omega

theorem compileAll_cons (config : BuildConfig) (sources : OrderedMap Text) (b : Build) (file : Text)
    (rest : List Text) :
    compileAll config sources b (file :: rest) =
      ((compileAll config sources (compileOne config sources b file).1 rest).1,
        (file, (compileOne config sources b file).2) ::
          (compileAll config sources (compileOne config sources b file).1 rest).2) := rfl

theorem compileAll_spec (config : BuildConfig) (sources : OrderedMap Text) (b : Build)
    (files : List Text) :
    (compileAll config sources b files).1.schedule = b.schedule ∧
      (compileAll config sources b files).1.failure = b.failure ∧
      OrderedMap.keys (compileAll config sources b files).2 = files ∧
      ∀ file page, (file, Except.ok page) ∈ (compileAll config sources b files).2 →
        page.file = file := by
  induction files generalizing b with
  | nil => exact ⟨rfl, rfl, rfl, fun _ _ h ↦ absurd h List.not_mem_nil⟩
  | cons first rest ih =>
    obtain ⟨hschedule, hfailure, hkeys, hown⟩ := ih (compileOne config sources b first).1
    rw [compileAll_cons]
    refine ⟨hschedule, hfailure, congrArg (first :: ·) hkeys, fun file page h ↦ ?_⟩
    rcases List.mem_cons.mp h with heq | h
    · obtain ⟨rfl, hpage⟩ := Prod.mk.inj heq
      exact file_of_compileOne hpage.symm
    · exact hown file page h

theorem reach_compileAll (b : Build) (hnone : b.failure = none)
    {ended : OrderedMap (Except CompileError Compiled)} {files : List Text} (hnodup : files.Nodup)
    (hpending : ∀ file ∈ files, file ∈ b.schedule.pending)
    (hnew : ∀ file ∈ files, file ∉ OrderedMap.keys ended) :
    ReflTransGen (Move config write g sources) ⟨b, ended⟩
      ⟨(compileAll config sources b files).1, ended ++ (compileAll config sources b files).2⟩ := by
  induction files generalizing b ended with
  | nil =>
    rw [compileAll, List.append_nil]
  | cons file rest ih =>
    obtain ⟨hfile, hrest⟩ := List.nodup_cons.mp hnodup
    obtain ⟨hpending_file, hpending⟩ := List.forall_mem_cons.mp hpending
    obtain ⟨hnew_file, hnew⟩ := List.forall_mem_cons.mp hnew
    have hnone' : (compileOne config sources b file).1.failure = none := hnone
    have hnew' : ∀ f ∈ rest,
        f ∉ OrderedMap.keys (ended ++ [(file, (compileOne config sources b file).2)]) := by
      intro f hf
      rw [OrderedMap.keys_append, OrderedMap.keys_cons, List.mem_append, not_or]
      refine ⟨hnew f hf, fun hlast ↦ hfile ?_⟩
      rw [← List.mem_singleton.mp hlast]
      exact hf
    have hrun := ih _ hnone' hrest hpending hnew'
    rw [List.append_assoc] at hrun
    exact .head (.compile hnone hpending_file hnew_file) hrun

theorem reach_recordAll {b : Build} (hnone : b.failure = none)
    {results : OrderedMap (Except CompileError Compiled)}
    (hown : ∀ file page, (file, Except.ok page) ∈ results → page.file = file)
    (hpending : b.schedule.pending = OrderedMap.keys results) :
    ∃ left, ReflTransGen (Move config write g sources) ⟨b, results⟩
        ⟨recordAll config write g b results, left⟩ ∧
      ((recordAll config write g b results).failure = none →
        left = [] ∧ (recordAll config write g b results).schedule.pending = []) := by
  induction results generalizing b with
  | nil => exact ⟨[], .refl, fun _ ↦ ⟨rfl, hpending⟩⟩
  | cons entry rest ih =>
    obtain ⟨file, result⟩ := entry
    have hmove : Move config write g sources ⟨b, (file, result) :: rest⟩
        ⟨recordNext config write g b file result, rest⟩ :=
      show Move config write g sources ⟨b, [] ++ (file, result) :: rest⟩ ⟨_, [] ++ rest⟩ from
        .record hnone
    rw [recordAll]
    split_ifs with hfailure
    · exact ⟨rest, .single hmove, fun h ↦ absurd h (Option.isSome_iff_ne_none.mp hfailure)⟩
    · rw [Option.not_isSome_iff_eq_none] at hfailure
      have hfile : ∀ page, result = .ok page → page.file = file := by
        rintro page rfl
        exact hown file page List.mem_cons_self
      rcases recordNext_cases config write g b hfile with ⟨-, hschedule, -⟩ | ⟨hgiven, -⟩
      · have hpending' : (recordNext config write g b file result).schedule.pending =
            OrderedMap.keys rest := by
          rw [hschedule, Schedule.record, hpending, OrderedMap.keys_cons, List.erase_cons_head]
        obtain ⟨left, hreach, hleft⟩ := ih hfailure
          (fun file page hmem ↦ hown file page (List.mem_cons_of_mem _ hmem)) hpending'
        exact ⟨left, .head hmove hreach, hleft⟩
      · exact absurd hfailure hgiven

theorem reach_batch {b : Build} (hs : Stage.Sound g ⟨b, []⟩) (hnone : b.failure = none)
    (hpending : b.schedule.pending = []) :
    ∃ left, ReflTransGen (Move config write g sources)
        ⟨{ b with schedule := b.schedule.submit }, []⟩ ⟨b.batch config write g sources, left⟩ ∧
      ((b.batch config write g sources).failure = none →
        left = [] ∧ (b.batch config write g sources).schedule.pending = []) := by
  have hsubmitted : b.schedule.submit.pending = b.schedule.ready := by
    rw [Schedule.submit, hpending, List.nil_append]
  obtain ⟨hschedule, hfailure, hkeys, hown⟩ := compileAll_spec config sources
    { b with schedule := b.schedule.submit } b.schedule.ready
  have hready : b.schedule.ready.Nodup := (List.nodup_append.mp hs.schedule.once).1
  have hcompile : ReflTransGen (Move config write g sources)
      ⟨{ b with schedule := b.schedule.submit }, []⟩
      ⟨(compileAll config sources { b with schedule := b.schedule.submit } b.schedule.ready).1,
        (compileAll config sources { b with schedule := b.schedule.submit } b.schedule.ready).2⟩ :=
    reach_compileAll { b with schedule := b.schedule.submit } hnone hready
      (fun file hfile ↦ hsubmitted ▸ hfile) fun _ _ ↦ List.not_mem_nil
  obtain ⟨left, hrecord, hleft⟩ := reach_recordAll (hfailure.trans hnone) hown
    (by rw [hschedule, hkeys, hsubmitted])
  exact ⟨left, hcompile.trans hrecord, hleft⟩

/-- Between batches nothing is pending, so that every step belongs to a recorded file. -/
theorem Stage.Sound.steps_between {b : Build} (hs : Stage.Sound g ⟨b, []⟩)
    (hpending : b.schedule.pending = []) :
    Stage.steps ⟨b, []⟩ = 3 * b.schedule.recorded.length := by
  have horder : b.schedule.order.length = b.schedule.recorded.length := by
    rw [hs.schedule.submitted.length_eq, hpending, List.append_nil]
  simp only [Stage.steps, horder, List.length_nil]
  omega

theorem batches_of_failure {b : Build} (h : b.failure ≠ none) (fuel : Nat) :
    batches config write g sources fuel b = b := by
  cases fuel with
  | zero => rfl
  | succ fuel => rw [batches, Option.isSome_iff_ne_none.mpr h, Bool.or_true, if_pos rfl]

/-- With a batch for every file, the batches go on until nothing can be done any more. -/
theorem reach_batches (hnodup : (OrderedMap.keys g).Nodup) (hacyclic : g.Acyclic) {fuel : Nat}
    {b : Build} (hs : Stage.Sound g ⟨b, []⟩) (hnone : b.failure = none)
    (hpending : b.schedule.pending = [])
    (hfuel : g.files.length ≤ fuel + b.schedule.recorded.length) :
    ∃ left, ReflTransGen (Move config write g sources) ⟨b, []⟩
        ⟨batches config write g sources fuel b, left⟩ ∧
      ¬ ∃ next, Move config write g sources ⟨batches config write g sources fuel b, left⟩ next := by
  induction fuel generalizing b with
  | zero =>
    refine ⟨[], .refl, ?_⟩
    rw [batches, exists_move_iff hnodup hacyclic hs]
    rintro ⟨-, file, hfile, hunrecorded⟩
    -- There are as many recorded files as files.
    have hwithin : ∀ f ∈ b.schedule.recorded, f ∈ g.files := fun f hf ↦
      hs.schedule.known f (List.mem_append_right _ (hs.schedule.mem_order_iff.mpr (.inl hf)))
    have hsub := List.subperm_of_subset (List.nodup_append.mp hs.schedule.nodup_submitted).1 hwithin
    rw [Nat.zero_add] at hfuel
    exact hunrecorded ((hsub.perm_of_length_le hfuel).mem_iff.mpr hfile)
  | succ fuel ih =>
    rw [batches]
    split_ifs with hstop
    · refine ⟨[], .refl, ?_⟩
      have hready : b.schedule.ready = [] := by
        simpa [hnone] using hstop
      rw [exists_move_iff hnodup hacyclic hs]
      rintro ⟨-, file, hfile, hunrecorded⟩
      exact hunrecorded (hs.schedule.recorded_of_idle hnodup hacyclic hready hpending hfile)
    · have hready : b.schedule.ready ≠ [] := by
        rintro hempty
        exact hstop (by rw [hempty]; rfl)
      have hsubmit : Move config write g sources ⟨b, []⟩
          ⟨{ b with schedule := b.schedule.submit }, []⟩ := .submit hnone hready
      have hsubmitted := hsubmit.sound hnodup hs
      obtain ⟨left, hbatch, hleft⟩ := reach_batch hs hnone hpending
      cases hfailure : (b.batch config write g sources).failure with
      | some e =>
        have hgiven : (b.batch config write g sources).failure ≠ none := by simp [hfailure]
        rw [batches_of_failure hgiven]
        refine ⟨left, .head hsubmit hbatch, ?_⟩
        rintro ⟨next, hmove⟩
        exact hgiven hmove.failure_eq_none
      | none =>
        obtain ⟨rfl, hpending'⟩ := hleft hfailure
        have hsound := hsubmitted.reach hnodup hbatch
        have hgrows : 3 * b.schedule.recorded.length <
            3 * (b.batch config write g sources).schedule.recorded.length := by
          rw [← hs.steps_between hpending, ← hsound.steps_between hpending']
          exact Nat.lt_of_lt_of_le (hsubmit.steps_lt hs hnone)
            (steps_le_of_reach hnodup hsubmitted hbatch hfailure)
        obtain ⟨left, hrest, hlast⟩ := ih hsound hfailure hpending' (by omega)
        exact ⟨left, .head hsubmit (hbatch.trans hrest), hlast⟩

end Moves

/-! ## Whole builds -/

/-- A build that gets as far as going through its files: there is an answer for every path, the
imports could be looked for, and there are workers. -/
structure Loop (config : BuildConfig) (tree : FileTree) (files : List Path) where
  /-- The build after its sources were read. -/
  read : Build
  /-- The sources that could be read. -/
  sources : OrderedMap Text
  /-- Which of them import which. -/
  graph : ImportGraph
  /-- What there was to say about the imports. -/
  notes : List Note
  read_eq : files.foldl readSource ({ tree }, []) = (read, sources)
  failure_eq : read.failure = none
  graph_eq :
    Dependencies.graph (ImportRules.standard config.base config.aliases) read.tree sources =
      (.ok graph, notes)
  staffed : config.workers.any (· ≤ 0) = false

/-- A build either goes through its files, or it is given up before the first one. -/
theorem loop_or_failure (config : BuildConfig) (write : Bool) (tree : FileTree)
    (files : List Path) : Nonempty (Loop config tree files) ∨
      (run config write tree files).failure ≠ none ∧
        (run config write tree files).schedule.order = [] := by
  have hread := hasRead_foldl tree files
  rw [run]
  generalize hfold : files.foldl readSource ({ tree }, []) = state at hread
  obtain ⟨b, sources⟩ := state
  simp only
  split_ifs with hfailure
  · refine .inr ⟨Option.isSome_iff_ne_none.mp hfailure, ?_⟩
    rw [hread.schedule_eq]
  · rw [Option.not_isSome_iff_eq_none] at hfailure
    rw [runSources]
    generalize hgraph : Dependencies.graph _ _ _ = answer
    obtain ⟨found, notes⟩ := answer
    cases found with
    | error e => exact .inr ⟨nofun, by rw [hread.schedule_eq]⟩
    | ok graph =>
      simp only [runGraph]
      cases hworkers : config.workers.any (· ≤ 0) with
      | true => exact .inr ⟨nofun, rfl⟩
      | false => exact .inl ⟨b, sources, graph, notes, hfold, hfailure, hgraph, hworkers⟩

namespace Loop

variable {config : BuildConfig} {tree : FileTree} {files : List Path}

def kept (loop : Loop config tree files) : ImportGraph := loop.graph.untangle.1

def start (loop : Loop config tree files) : Stage where
  build := prepare config loop.sources loop.kept loop.graph.untangle.2
    { loop.read with notes := loop.read.notes ++ loop.notes }

def Step (loop : Loop config tree files) (write : Bool) : Stage → Stage → Prop :=
  Move config write loop.kept loop.sources

/-- Whether some run comes to a stage. -/
def Reaches (loop : Loop config tree files) (write : Bool) (stage : Stage) : Prop :=
  ReflTransGen (loop.Step write) loop.start stage

variable (loop : Loop config tree files)

theorem hasRead : HasRead tree files loop.read loop.sources := by
  have h := hasRead_foldl tree files
  rw [loop.read_eq] at h
  exact h

theorem keys_graph : OrderedMap.keys loop.graph = OrderedMap.keys loop.sources ∧
    ∀ importer file, loop.graph.Uses importer file → file ∈ OrderedMap.keys loop.sources :=
  Dependencies.graph_eq_ok (congrArg Prod.fst loop.graph_eq)

theorem nodup_graph : (OrderedMap.keys loop.graph).Nodup := by
  rw [loop.keys_graph.1]
  exact loop.hasRead.nodup_sources

theorem spares : loop.graph.Spares loop.kept :=
  (ImportGraph.untangles_untangle loop.nodup_graph).spares loop.nodup_graph

theorem acyclic : loop.kept.Acyclic := (ImportGraph.untangles_untangle loop.nodup_graph).acyclic

theorem nodup_kept : (OrderedMap.keys loop.kept).Nodup := by
  rw [loop.spares.keys]
  exact loop.nodup_graph

theorem mem_files_iff_mem_sources {file : Text} :
    file ∈ loop.kept.files ↔ file ∈ OrderedMap.keys loop.sources := by
  rw [loop.spares.files, ImportGraph.mem_files loop.nodup_graph, loop.keys_graph.1]
  constructor
  · rintro (hkey | ⟨importer, huses⟩)
    · exact hkey
    · exact loop.keys_graph.2 importer file huses
  · exact .inl

theorem mem_files_iff {file : Text} : file ∈ loop.kept.files ↔ tree.Readable files file := by
  rw [loop.mem_files_iff_mem_sources, loop.hasRead.mem_sources]

theorem length_files_le : loop.kept.files.length ≤ loop.sources.length := by
  have hsub := List.subperm_of_subset (nodup_distinct _) fun file (hfile : file ∈ loop.kept.files) ↦
    loop.mem_files_iff_mem_sources.mp hfile
  have := hsub.length_le
  rwa [OrderedMap.keys, List.length_map] at this

theorem sound_start : loop.start.Sound loop.kept where
  schedule := Schedule.Sound.start loop.kept
  nodup_ended := List.nodup_nil
  pending _ hfile := absurd hfile List.not_mem_nil
  own _ _ hmem := absurd hmem List.not_mem_nil
  nodup_results := loop.hasRead.nodup_results
  results _ hfile := absurd hfile List.not_mem_nil

theorem sound_of_reaches {write : Bool} {stage : Stage} (h : loop.Reaches write stage) :
    stage.Sound loop.kept := loop.sound_start.reach loop.nodup_kept h

/-- The batches that are run are a run, and they go on until nothing can be done any more. -/
theorem exists_run (write : Bool) :
    ∃ stage, loop.Reaches write stage ∧ (¬ ∃ next, loop.Step write stage next) ∧
      run config write tree files =
        if stage.build.failure.isSome then stage.build
        else stage.build.say stage.build.endNote := by
  have hfuel : loop.kept.files.length ≤
      loop.sources.length + loop.start.build.schedule.recorded.length := loop.length_files_le
  have hbatches : ∃ left, loop.Reaches write
        ⟨batches config write loop.kept loop.sources loop.sources.length loop.start.build, left⟩ ∧
      ¬ ∃ next, loop.Step write
        ⟨batches config write loop.kept loop.sources loop.sources.length loop.start.build, left⟩
        next :=
    reach_batches loop.nodup_kept loop.acyclic loop.sound_start loop.failure_eq rfl hfuel
  obtain ⟨left, hreach, hlast⟩ := hbatches
  refine ⟨_, hreach, hlast, ?_⟩
  have hrun : run config write tree files = runSources config write loop.read loop.sources := by
    rw [run, loop.read_eq]
    exact if_neg (by simp [loop.failure_eq])
  rw [hrun, runSources]
  simp only [loop.graph_eq, runGraph, loop.staffed, Bool.false_eq_true, if_false]
  rfl

/-! ## What every run keeps to -/

/-- What a build keeps to at a stage, in whatever order compilations have ended. -/
structure Orderly (loop : Loop config tree files) (write : Bool) (stage : Stage) : Prop where
  /-- Files are submitted once, and only files that can be read. -/
  submitted : stage.build.schedule.order.Nodup ∧
    ∀ file ∈ stage.build.schedule.order, tree.Readable files file
  /-- Files are recorded once and with one result, and only files that were submitted. -/
  recorded : stage.build.schedule.recorded.Nodup ∧
    ∀ file ∈ stage.build.schedule.recorded,
      file ∈ stage.build.schedule.order ∧ ∃! r, (file, r) ∈ stage.build.results
  /-- What a submitted file imports is recorded, and comes before it in the order. -/
  ordered : ∀ importer ∈ stage.build.schedule.order, ∀ file, loop.kept.Uses importer file →
    file ∈ stage.build.schedule.recorded ∧ [file, importer].Sublist stage.build.schedule.order
  /-- What a file imports is recorded before the file is submitted. -/
  waits : ∀ next, loop.Step write stage next → ∀ importer ∈ next.build.schedule.order,
    importer ∉ stage.build.schedule.order → ∀ file, loop.kept.Uses importer file →
      file ∈ stage.build.schedule.recorded
  /-- While a file is not recorded, something is ready or pending. -/
  busy : ∀ file, tree.Readable files file → file ∉ stage.build.schedule.recorded →
    stage.build.schedule.ready ≠ [] ∨ stage.build.schedule.pending ≠ []
  /-- The build is given up only over what came of compiling a file. -/
  abandoned : ∀ next, loop.Step write stage next → next.build.failure ≠ none →
    ∃ file result, (file, result) ∈ stage.ended ∧ GivesUp config write stage.build.tree result
  /-- When nothing can be done any more and the build was not given up, every file that can be read
  was submitted once and recorded once, with one result. -/
  complete : (¬ ∃ next, loop.Step write stage next) → stage.build.failure = none →
    ∀ file, tree.Readable files file →
      stage.build.schedule.order.count file = 1 ∧ stage.build.schedule.recorded.count file = 1 ∧
        ∃! r, (file, r) ∈ stage.build.results

theorem orderly_of_sound {write : Bool} {stage : Stage} (hs : stage.Sound loop.kept) :
    loop.Orderly write stage where
  submitted := ⟨hs.schedule.nodup_order, fun file hfile ↦
    loop.mem_files_iff.mp (hs.schedule.known file (List.mem_append_right _ hfile))⟩
  recorded := ⟨(List.nodup_append.mp hs.schedule.nodup_submitted).1, fun file hfile ↦
    ⟨hs.schedule.mem_order_iff.mpr (.inl hfile),
      OrderedMap.existsUnique_mem hs.nodup_results (hs.results file hfile)⟩⟩
  ordered importer himporter file huses :=
    ⟨hs.schedule.served importer (List.mem_append_right _ himporter) file huses,
      hs.schedule.ordered importer himporter file huses⟩
  waits next hstep importer hnext hnew file huses := by
    have hready := hstep.mem_ready hs hnext hnew
    exact hs.schedule.served importer (List.mem_append_left _ hready) file huses
  busy file hfile hunrecorded := by
    by_contra hidle
    rw [not_or, not_not, not_not] at hidle
    exact hunrecorded (hs.schedule.recorded_of_idle loop.nodup_kept loop.acyclic hidle.1 hidle.2
      (loop.mem_files_iff.mpr hfile))
  abandoned next hstep hfailure := hstep.givesUp hfailure
  complete hrest hnone file hfile := by
    have hrecorded : file ∈ stage.build.schedule.recorded := by
      by_contra hunrecorded
      exact hrest ((exists_move_iff loop.nodup_kept loop.acyclic hs).mpr
        ⟨hnone, file, loop.mem_files_iff.mpr hfile, hunrecorded⟩)
    refine ⟨List.count_eq_one_of_mem hs.schedule.nodup_order
      (hs.schedule.mem_order_iff.mpr (.inl hrecorded)), List.count_eq_one_of_mem
      (List.nodup_append.mp hs.schedule.nodup_submitted).1 hrecorded, ?_⟩
    exact OrderedMap.existsUnique_mem hs.nodup_results (hs.results file hrecorded)

/-- **Every run is orderly.** In whatever order compilations end, a build keeps to what is listed in
`Orderly` at every stage of a run; a run comes to rest after at most three moves for every source
and one more; and the batches that are run are such a run, up to where it rests. -/
theorem every_run_orderly (loop : Loop config tree files) (write : Bool) :
    (∀ stage, loop.Reaches write stage → loop.Orderly write stage) ∧
    (∀ stages, (loop.start :: stages).IsChain (loop.Step write) →
      stages.length ≤ 3 * loop.sources.length + 1) ∧
    ∃ stage, loop.Reaches write stage ∧ (¬ ∃ next, loop.Step write stage next) ∧
      run config write tree files =
        if stage.build.failure.isSome then stage.build
        else stage.build.say stage.build.endNote := by
  refine ⟨fun stage hreach ↦ loop.orderly_of_sound (loop.sound_of_reaches hreach),
    fun stages hchain ↦ ?_, loop.exists_run write⟩
  have hbound := length_le_of_isChain loop.nodup_kept loop.sound_start hchain
  have := loop.length_files_le
  omega

end Loop

/-- Two pages, of which the second imports the first, given the route of the first. -/
def pageAndImporter (route : Text) : FileTree where
  nodes :=
    [(["a.mtm"], .file (Utf8.encode ("---\nroute: " ++ route ++ "\n---\n<template>x</template>"))),
     (["b.mtm"], .file (Utf8.encode "import A from \"./a.mtm\"\n<template>x</template>"))]

def pageAndImporterPaths : List Path := [Path.ofText "b.mtm", Path.ofText "a.mtm"]

theorem two_pages_orderly :
    ∃ loop : Loop {} (pageAndImporter "/a") pageAndImporterPaths,
      loop.kept.Uses "b.mtm" "a.mtm" ∧
        ∀ stage, loop.Reaches true stage → loop.Orderly true stage := by
  let loop : Loop {} (pageAndImporter "/a") pageAndImporterPaths :=
    { read := (pageAndImporterPaths.foldl readSource ({ tree := pageAndImporter "/a" }, [])).1
      sources := (pageAndImporterPaths.foldl readSource ({ tree := pageAndImporter "/a" }, [])).2
      graph := [("b.mtm", ["a.mtm"]), ("a.mtm", [])]
      notes := _
      read_eq := rfl
      failure_eq := by decide +kernel
      graph_eq := Prod.ext (by decide +kernel) rfl
      staffed := rfl }
  have huses : ("a.mtm" : Text) ∈ loop.kept.imports "b.mtm" := by decide +kernel
  exact ⟨loop, huses, (loop.every_run_orderly true).1⟩

/-- A path that is none keeps the files that follow from being submitted: where the route of the
first page has a null character in it, the second page can be read and is never submitted. -/
theorem abandoned_build_skips_file :
    ∃ loop : Loop {} (pageAndImporter "/a\x00") pageAndImporterPaths, ∃ stage,
      loop.Reaches true stage ∧ (¬ ∃ next, loop.Step true stage next) ∧
        (pageAndImporter "/a\x00").Readable pageAndImporterPaths "b.mtm" ∧
        stage.build.schedule.order.count ("b.mtm" : Text) = 0 ∧
        stage.build.schedule.recorded = [] := by
  have hrun : (run {} true (pageAndImporter "/a\x00") pageAndImporterPaths).schedule =
      { pending := [("a.mtm" : Text)], order := [("a.mtm" : Text)] } := by decide +kernel
  have hreadable : (pageAndImporter "/a\x00").Readable pageAndImporterPaths "b.mtm" :=
    ⟨Path.ofText "b.mtm", by simp [pageAndImporterPaths], by decide +kernel,
      "import A from \"./a.mtm\"\n<template>x</template>", by decide +kernel⟩
  rcases loop_or_failure {} true (pageAndImporter "/a\x00") pageAndImporterPaths with
    ⟨⟨loop⟩⟩ | ⟨-, horder⟩
  · obtain ⟨stage, hreach, hlast, heq⟩ := loop.exists_run true
    have hschedule : stage.build.schedule =
        (run {} true (pageAndImporter "/a\x00") pageAndImporterPaths).schedule := by
      rw [heq]
      split_ifs <;> rfl
    rw [hrun] at hschedule
    refine ⟨loop, stage, hreach, hlast, hreadable, ?_, ?_⟩
    · rw [hschedule]
      decide
    · rw [hschedule]
  · rw [hrun] at horder
    exact nomatch horder

end Build

end PageCompiler
