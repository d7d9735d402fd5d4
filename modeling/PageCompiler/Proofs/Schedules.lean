import Mathlib.Order.WellFoundedSet
import PageCompiler.Build.Schedule
import PageCompiler.Proofs.ImportCycles

/-!
# Schedules that never get stuck

A schedule does not say which of the submitted files is recorded next. What holds of it whatever is
recorded is `Schedule.Sound`: no file is submitted twice, a file is not submitted before the files
it imports are recorded, and a file that waits for nothing is never forgotten. Starting, submitting
and recording keep it.

The last of these is what keeps a schedule going. Among files without import cycles there is always
one all of whose imports are recorded, as long as there is any that is not recorded itself; and that
file is ready, or it was submitted and is waiting to be recorded.
-/

namespace PageCompiler

open Relation

/-! ## Graphs without cycles -/

namespace ImportGraph

variable {g : ImportGraph}

/-- Without cycles, no chain of imports goes on for ever. -/
theorem Acyclic.wellFounded (h : g.Acyclic) :
    WellFounded fun file importer ↦ g.Uses importer file := by
  let leads : Text → Text → Prop := fun file importer ↦ TransGen g.Uses importer file
  have : IsStrictOrder Text leads :=
    { irrefl := h, trans := fun _ _ _ hab hbc ↦ hbc.trans hab }
  refine ⟨fun importer ↦ (Set.WellFoundedOn.acc_iff_wellFoundedOn.out 0 2).mpr ?_⟩
  -- What is imported by way of others stands in the list of some file's imports.
  have hfinite : {file | TransGen (fun f i ↦ g.Uses i f) file importer}.Finite := by
    refine (List.finite_toSet (g.flatMap Prod.snd)).subset fun file hfile ↦ ?_
    obtain ⟨next, huses, -⟩ := TransGen.head'_iff.mp hfile
    obtain ⟨used, hmem, hused⟩ := mem_of_uses huses
    exact List.mem_flatMap.mpr ⟨(next, used), hmem, hused⟩
  exact hfinite.wellFoundedOn.mono (fun _ _ huses ↦ TransGen.single huses) subset_rfl

theorem nodup_importers (hnodup : (OrderedMap.keys g).Nodup) (file : Text) :
    (g.importers file).Nodup := by
  refine hnodup.sublist ?_
  rw [importers, OrderedMap.keys]
  exact List.filter_sublist.map _

end ImportGraph

namespace Schedule

variable {g : ImportGraph} {s : Schedule} {file : Text}

/-- What holds of a schedule however far it has come. -/
structure Sound (g : ImportGraph) (s : Schedule) : Prop where
  /-- A submitted file is pending or recorded, and not both. -/
  submitted : s.order.Perm (s.recorded ++ s.pending)
  /-- No file is ready or submitted twice. -/
  once : (s.ready ++ s.order).Nodup
  known : ∀ file ∈ s.ready ++ s.order, file ∈ g.files
  /-- A file waits for what it imports. -/
  served : ∀ importer ∈ s.ready ++ s.order, ∀ file ∈ g.imports importer, file ∈ s.recorded
  /-- A file that waits for nothing is not forgotten. -/
  released : ∀ importer ∈ g.files, (∀ file ∈ g.imports importer, file ∈ s.recorded) →
    importer ∈ s.ready ++ s.order
  /-- What a file imports comes before it. -/
  ordered : ∀ importer ∈ s.order, ∀ file ∈ g.imports importer,
    [file, importer].Sublist s.order

namespace Sound

theorem nodup_order (hs : s.Sound g) : s.order.Nodup := (List.nodup_append.mp hs.once).2.1

theorem nodup_submitted (hs : s.Sound g) : (s.recorded ++ s.pending).Nodup :=
  hs.submitted.nodup_iff.mp hs.nodup_order

theorem mem_order_iff (hs : s.Sound g) : file ∈ s.order ↔ file ∈ s.recorded ∨ file ∈ s.pending := by
  rw [hs.submitted.mem_iff, List.mem_append]

theorem notMem_recorded (hs : s.Sound g) (hfile : file ∈ s.pending) : file ∉ s.recorded :=
  fun hrecorded ↦ (List.nodup_append.mp hs.nodup_submitted).2.2 file hrecorded file hfile rfl

/-! ## Steps -/

theorem start (g : ImportGraph) : (Schedule.start g).Sound g where
  submitted := .refl _
  once := by
    rw [Schedule.start, List.append_nil]
    exact (nodup_distinct _).filter _
  known file hfile := by
    rw [Schedule.start, List.append_nil] at hfile
    exact List.mem_of_mem_filter hfile
  served importer himporter file hfile := by
    rw [Schedule.start, List.append_nil, List.mem_filter, List.isEmpty_iff] at himporter
    rw [himporter.2] at hfile
    exact hfile
  released importer himporter hserved := by
    rw [Schedule.start, List.append_nil, List.mem_filter, List.isEmpty_iff]
    exact ⟨himporter, List.eq_nil_iff_forall_not_mem.mpr fun file hfile ↦
      absurd (hserved file hfile) List.not_mem_nil⟩
  ordered _ himporter := absurd himporter List.not_mem_nil

theorem perm_submit (s : Schedule) :
    (s.ready ++ s.order).Perm (s.submit.ready ++ s.submit.order) := List.perm_append_comm

theorem submit (hs : s.Sound g) : s.submit.Sound g where
  submitted := by
    rw [Schedule.submit, ← List.append_assoc]
    exact hs.submitted.append_right _
  once := (perm_submit s).nodup_iff.mp hs.once
  known file hfile := hs.known file ((perm_submit s).mem_iff.mpr hfile)
  served importer himporter := hs.served importer ((perm_submit s).mem_iff.mpr himporter)
  released importer himporter hserved :=
    (perm_submit s).mem_iff.mp (hs.released importer himporter hserved)
  ordered importer himporter file hfile := by
    rcases List.mem_append.mp himporter with hold | hnew
    · exact (hs.ordered importer hold file hfile).trans (List.sublist_append_left _ _)
    · -- A file that is submitted now comes after all that is recorded.
      have hrecorded := hs.served importer (List.mem_append_left _ hnew) file hfile
      have hbefore : file ∈ s.order := hs.mem_order_iff.mpr (.inl hrecorded)
      exact (List.singleton_sublist.mpr hbefore).append (List.singleton_sublist.mpr hnew)

theorem mem_released_iff (hnodup : (OrderedMap.keys g).Nodup) {recorded : List Text}
    {importer : Text} : importer ∈ Schedule.released g recorded file ↔
      g.Uses importer file ∧ ∀ used ∈ g.imports importer, used ∈ file :: recorded := by
  rw [Schedule.released, List.mem_filter, ImportGraph.mem_importers hnodup, List.all_eq_true]
  simp only [decide_eq_true_eq]

theorem record (hnodup : (OrderedMap.keys g).Nodup) (hs : s.Sound g) (hfile : file ∈ s.pending) :
    (s.record g file).Sound g where
  submitted := by
    have hsplit : (s.recorded ++ s.pending).Perm (s.recorded ++ file :: s.pending.erase file) :=
      (List.perm_cons_erase hfile).append_left _
    rw [Schedule.record, List.append_assoc, List.singleton_append]
    exact hs.submitted.trans hsplit
  once := by
    -- What is released now imports the file, and was neither ready nor submitted before the file
    -- was recorded.
    have hnew : ∀ importer ∈ Schedule.released g s.recorded file,
        importer ∉ s.ready ++ s.order := by
      intro importer himporter hold
      have huses := ((mem_released_iff hnodup).mp himporter).1
      exact hs.notMem_recorded hfile (hs.served importer hold file huses)
    have hreleased : (Schedule.released g s.recorded file).Nodup :=
      (ImportGraph.nodup_importers hnodup file).filter _
    have hperm : (Schedule.released g s.recorded file ++ (s.ready ++ s.order)).Perm
        ((s.ready ++ Schedule.released g s.recorded file) ++ s.order) := by
      rw [← List.append_assoc]
      exact List.perm_append_comm.append_right _
    refine hperm.nodup_iff.mp (List.nodup_append.mpr ⟨hreleased, hs.once, ?_⟩)
    rintro importer himporter _ hold rfl
    exact hnew importer himporter hold
  known importer himporter := by
    simp only [Schedule.record, List.mem_append] at himporter
    rcases himporter with (hready | hreleased) | horder
    · exact hs.known importer (List.mem_append_left _ hready)
    · have huses := ((mem_released_iff hnodup).mp hreleased).1
      exact (ImportGraph.mem_files hnodup).mpr (.inl (ImportGraph.mem_keys_of_uses huses))
    · exact hs.known importer (List.mem_append_right _ horder)
  served importer himporter used hused := by
    simp only [Schedule.record, List.mem_append] at himporter ⊢
    rcases himporter with (hready | hreleased) | horder
    · exact .inl (hs.served importer (List.mem_append_left _ hready) used hused)
    · have hserved := ((mem_released_iff hnodup).mp hreleased).2 used hused
      rcases List.mem_cons.mp hserved with rfl | hold
      · exact .inr List.mem_cons_self
      · exact .inl hold
    · exact .inl (hs.served importer (List.mem_append_right _ horder) used hused)
  released importer himporter hserved := by
    have hserved : ∀ used ∈ g.imports importer, used ∈ file :: s.recorded := by
      intro used hused
      have := hserved used hused
      simp only [Schedule.record, List.mem_append, List.mem_singleton] at this
      exact List.mem_cons.mpr this.symm
    simp only [Schedule.record, List.mem_append]
    by_cases huses : file ∈ g.imports importer
    · exact .inl (.inr ((mem_released_iff hnodup).mpr ⟨huses, hserved⟩))
    · -- A file that does not import this one waited for nothing before.
      have hbefore : ∀ used ∈ g.imports importer, used ∈ s.recorded := by
        intro used hused
        rcases List.mem_cons.mp (hserved used hused) with rfl | hold
        · exact absurd hused huses
        · exact hold
      rcases List.mem_append.mp (hs.released importer himporter hbefore) with hready | horder
      · exact .inl (.inl hready)
      · exact .inr horder
  ordered := hs.ordered

/-! ## Progress -/

/-- A schedule that has nothing to submit and nothing to record has recorded all files. -/
theorem recorded_of_idle (hnodup : (OrderedMap.keys g).Nodup) (hacyclic : g.Acyclic)
    (hs : s.Sound g) (hready : s.ready = []) (hpending : s.pending = []) (hfile : file ∈ g.files) :
    file ∈ s.recorded := by
  induction file using hacyclic.wellFounded.induction with
  | _ importer ih =>
    have hserved : ∀ file ∈ g.imports importer, file ∈ s.recorded := fun file hused ↦
      ih file hused ((ImportGraph.mem_files hnodup).mpr (.inr ⟨importer, hused⟩))
    have hsubmitted := hs.released importer hfile hserved
    rw [hready, List.nil_append, hs.mem_order_iff, hpending] at hsubmitted
    exact hsubmitted.resolve_right List.not_mem_nil

theorem length_order_le (hs : s.Sound g) : s.order.length ≤ g.files.length :=
  (List.subperm_of_subset hs.nodup_order fun file hfile ↦
    hs.known file (List.mem_append_right _ hfile)).length_le

end Sound

end Schedule

end PageCompiler
