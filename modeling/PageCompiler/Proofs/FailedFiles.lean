import PageCompiler.Proofs.WrittenArtifacts

/-!
# What a failed file leaves behind

A file fails because it cannot be read, because there is something wrong with it, because another
file owns one of its artifacts, or because an artifact could not be written. In all cases but the
last it leaves nothing behind: it owns nothing, nobody is refused on its account, and every file
there is was there before or is an artifact of another page (`Build.LeavesNothing`).

A page whose artifacts could not be written owns them all the same, so that later pages are refused
names that lead nowhere, and its document stays if it was the script that could not be written
(`Build.HalfWritten`). There is no third case.
-/

namespace PageCompiler

open Relation

namespace Build

/-- Whether there is an artifact at a location, of a page of another file, whose artifacts belong to
that file. -/
def ProducedByOther (b : Build) (directory : Path) (file : Text) (location : List Text) : Prop :=
  ∃ page, page.file ≠ file ∧ HasPage b.results page.file page ∧ b.Owns page ∧
    b.tree.Shows directory page.artifacts location

/-- Whether a file has written at most some artifacts: whatever file there is was in the tree that
the build began with, or is one of these artifacts, or an artifact of another file. -/
def WroteAtMost (tree : FileTree) (directory : Path) (file : Text)
    (artifacts : List (Text × Text)) (b : Build) : Prop :=
  ∀ location bytes, b.tree.at? location = some (.file bytes) →
    tree.at? location = some (.file bytes) ∨ b.tree.Shows directory artifacts location ∨
      b.ProducedByOther directory file location

/-- Whether a file leaves nothing behind: no artifact belongs to it, no page is refused on its
account, and it has written nothing. -/
structure LeavesNothing (tree : FileTree) (directory : Path) (file : Text) (b : Build) : Prop where
  owns : ∀ name, OrderedMap.get? b.outputs name ≠ some file
  blocks : ∀ page name, b.clash? page ≠ some (name, file)
  wrote : b.WroteAtMost tree directory file []

/-- Whether a file failed since an artifact of its page could not be written: its artifacts belong
to it, pages of other files are refused for them, and it has written nothing, or its document and
not its script. -/
structure HalfWritten (tree : FileTree) (directory : Path) (file : Text) (page : Compiled)
    (e : FileError) (b : Build) : Prop where
  result : OrderedMap.get? b.results file =
    some { file, page := some page, errors := [writeError file directory e] }
  owns_iff : ∀ name, OrderedMap.get? b.outputs name = some file ↔ name ∈ page.artifactNames
  blocks : ∀ other : Compiled, other.file ≠ file →
    (∃ name ∈ other.artifactNames, name ∈ page.artifactNames) → b.clash? other ≠ none
  wrote : b.WroteAtMost tree directory file [] ∨
    b.WroteAtMost tree directory file [(page.outputName, page.html)] ∧ page.externalFile? ≠ none ∧
      b.tree.readBytes (directory.appendText page.outputName) = .ok (Utf8.encode page.html)

variable {config : BuildConfig} {write : Bool} {tree : FileTree} {b after : Build} {d : Delivery}
variable {file : Text} {page : Compiled} {ds : List Delivery} {artifacts : List (Text × Text)}

/-! ## What belongs to a file -/

/-- A page that takes what is free takes nothing from other files and gives them nothing. -/
theorem owner_own_iff (hfree : b.clash? page = none) (hne : page.file ≠ file) (name : Text) :
    OrderedMap.get? (b.own page).outputs name = some file ↔
      OrderedMap.get? b.outputs name = some file := by
  rw [own, get?_foldl_put]
  split_ifs with hname
  · constructor
    · intro howner
      exact absurd (Option.some.inj howner) hne
    · intro howner
      exact absurd (eq_file_of_clash?_eq_none hfree hname howner).symm hne
  · rfl

theorem owner_deliver_iff (hne : d.file ≠ file) (name : Text) :
    OrderedMap.get? (deliver config write b d).outputs name = some file ↔
      OrderedMap.get? b.outputs name = some file := by
  have hown : ∀ page, d.result = .ok page → page.file ≠ file := fun page hpage ↦
    (Delivery.file_of_result hpage).trans_ne hne
  have hrecorded := recorded_record config write b d.file d.result
  rw [← deliver] at hrecorded
  generalize d.result = result at hrecorded hown
  generalize deliver config write b d = after at hrecorded
  cases hrecorded with
  | rejected _ => rfl
  | abandoned _ _ _ => rfl
  | clash _ => rfl
  | @unasked page hfree _ => exact owner_own_iff hfree (hown page rfl) name
  | @written page _ _ hfree _ _ => exact owner_own_iff hfree (hown page rfl) name
  | @unwritten page _ _ hfree _ _ _ => exact owner_own_iff hfree (hown page rfl) name
  | @nowhere page _ _ hfree _ _ _ => exact owner_own_iff hfree (hown page rfl) name

/-- Deliveries of other files neither give a file an artifact nor take one from it. -/
theorem owner_deliverAll_iff (b : Build) (hfile : file ∉ ds.map Delivery.file) (name : Text) :
    OrderedMap.get? (deliverAll config write b ds).outputs name = some file ↔
      OrderedMap.get? b.outputs name = some file := by
  induction ds generalizing b with
  | nil => rfl
  | cons d rest ih =>
    rw [List.map_cons, List.mem_cons, not_or] at hfile
    exact (ih _ hfile.2).trans (owner_deliver_iff (Ne.symm hfile.1) name)

theorem owns_deliver (howns : b.Owns page) (hne : d.file ≠ page.file) :
    (deliver config write b d).Owns page := fun name hname ↦
  (owner_deliver_iff hne name).mpr (howns name hname)

theorem hasPage_deliver_iff (hne : file ≠ d.file) :
    HasPage (deliver config write b d).results file page ↔ HasPage b.results file page := by
  rw [HasPage, HasPage, get?_results_deliver config write b d hne]

/-! ## What a file has written -/

/-- What is in a tree after changes is accounted for, if it was before and the changes are. -/
theorem WroteAtMost.of_changes {shown more : List (Text × Text)} {directory : Path}
    (h : b.WroteAtMost tree directory file artifacts)
    (hchanges : ReflTransGen (FileTree.Change directory shown) b.tree after.tree)
    (hkept : ∀ page, page.file ≠ file → HasPage b.results page.file page → b.Owns page →
      HasPage after.results page.file page ∧ after.Owns page)
    (hshown : ∀ location, after.tree.Shows directory shown location →
      after.tree.Shows directory more location ∨ after.ProducedByOther directory file location)
    (hsub : artifacts ⊆ more) : after.WroteAtMost tree directory file more := by
  have hreceives := FileTree.receives_of_changes hchanges
  intro location bytes hat
  rcases FileTree.origin_of_changes hchanges hat with hbefore | hnew
  · rcases h location bytes hbefore with hfirst | hshows | ⟨page, hne, hpage, howns, hshows⟩
    · exact .inl hfirst
    · rcases hreceives.shows hshows with hstill | hover
      · exact .inr (.inl (hstill.mono hsub))
      · exact .inr (hshown location hover)
    · rcases hreceives.shows hshows with hstill | hover
      · obtain ⟨hpage', howns'⟩ := hkept page hne hpage howns
        exact .inr (.inr ⟨page, hne, hpage', howns', hstill⟩)
      · exact .inr (hshown location hover)
  · exact .inr (hshown location hnew)

theorem owns_own (b : Build) (page : Compiled) : (b.own page).Owns page := by
  intro name hname
  rw [own, get?_foldl_put, if_pos hname]

/-- A delivery changes nothing but artifacts of its page, which belong to its file then. -/
theorem changes_deliver (hnone : (deliver config write b d).failure = none) :
    ∃ shown, ReflTransGen (FileTree.Change config.outputDirectory shown) b.tree
        (deliver config write b d).tree ∧
      ∀ location, (deliver config write b d).tree.Shows config.outputDirectory shown location →
        ∃ page : Compiled, page.file = d.file ∧
          HasPage (deliver config write b d).results page.file page ∧
          (deliver config write b d).Owns page ∧
          (deliver config write b d).tree.Shows config.outputDirectory page.artifacts location := by
  have hrecorded := recorded_record config write b d.file d.result
  have hown : ∀ page, d.result = .ok page → page.file = d.file := fun _ ↦ Delivery.file_of_result
  rw [← deliver] at hrecorded
  generalize d.result = result at hrecorded hown
  generalize deliver config write b d = after at hrecorded hnone
  have hidle : ∀ location, ¬ b.tree.Shows config.outputDirectory [] location := by
    rintro location ⟨_, hmem, -⟩
    exact absurd hmem List.not_mem_nil
  cases hrecorded with
  | rejected _ => exact ⟨[], .refl, fun location h ↦ absurd h (hidle location)⟩
  | abandoned _ _ _ => cases hnone
  | clash _ => exact ⟨[], .refl, fun location h ↦ absurd h (hidle location)⟩
  | unasked _ _ => exact ⟨[], .refl, fun location h ↦ absurd h (hidle location)⟩
  | @written page _ _ _ _ hwrite =>
    exact ⟨page.artifacts, FileTree.changes_write hwrite, fun location h ↦
      ⟨page, hown page rfl, ⟨_, OrderedMap.get?_put_self _ _ _, rfl⟩, owns_own _ page, h⟩⟩
  | @unwritten page _ _ _ _ hwrite _ =>
    exact ⟨page.artifacts, FileTree.changes_write hwrite, fun location h ↦
      ⟨page, hown page rfl, ⟨_, OrderedMap.get?_put_self _ _ _, rfl⟩, owns_own _ page, h⟩⟩
  | nowhere _ _ _ _ => cases hnone

/-- **A delivery of another file is not laid to the charge of a file.** -/
theorem WroteAtMost.deliver (h : b.WroteAtMost tree config.outputDirectory file artifacts)
    (hne : d.file ≠ file) (hnew : ∀ page, ¬ HasPage b.results d.file page)
    (hnone : (deliver config write b d).failure = none) :
    (deliver config write b d).WroteAtMost tree config.outputDirectory file artifacts := by
  obtain ⟨shown, hchanges, hshown⟩ := changes_deliver hnone
  refine h.of_changes hchanges (fun page _ hpage howns ↦ ?_) (fun location hshows ↦ ?_)
    (List.Subset.refl _)
  · have hother : page.file ≠ d.file := fun heq ↦ hnew page (heq ▸ hpage)
    exact ⟨(hasPage_deliver_iff hother).mpr hpage, owns_deliver howns (Ne.symm hother)⟩
  · obtain ⟨page, hfile, hpage, howns, hshows⟩ := hshown location hshows
    exact .inr ⟨page, hfile.trans_ne hne, hpage, howns, hshows⟩

theorem WroteAtMost.deliverAll (h : b.WroteAtMost tree config.outputDirectory file artifacts)
    (hfiles : (ds.map Delivery.file).Nodup) (hfile : file ∉ ds.map Delivery.file)
    (hnew : ∀ d ∈ ds, ∀ page, ¬ HasPage b.results d.file page)
    (hnone : (deliverAll config write b ds).failure = none) :
    (deliverAll config write b ds).WroteAtMost tree config.outputDirectory file artifacts := by
  induction ds generalizing b with
  | nil => exact h
  | cons d rest ih =>
    rw [List.map_cons, List.nodup_cons] at hfiles
    rw [List.map_cons, List.mem_cons, not_or] at hfile
    refine ih (h.deliver (Ne.symm hfile.1) (hnew d List.mem_cons_self)
      (failure_of_deliverAll hnone)) hfiles.2 hfile.2 (fun other hother page ↦ ?_) hnone
    have hne : other.file ≠ d.file := fun heq ↦
      hfiles.1 (heq ▸ List.mem_map.mpr ⟨other, hother, rfl⟩)
    rw [hasPage_deliver_iff hne]
    exact hnew other (List.mem_cons_of_mem _ hother) page

/-- The delivery of a file itself is laid to its charge, as far as it was written. -/
theorem WroteAtMost.deliver_self {shown : List (Text × Text)}
    (h : b.WroteAtMost tree config.outputDirectory d.file [])
    (hchanges : ReflTransGen (FileTree.Change config.outputDirectory shown) b.tree
      (Build.deliver config write b d).tree) :
    (Build.deliver config write b d).WroteAtMost tree config.outputDirectory d.file shown :=
  h.of_changes hchanges
    (fun _ hne hpage howns ↦
      ⟨(hasPage_deliver_iff hne).mpr hpage, owns_deliver howns (Ne.symm hne)⟩)
    (fun _ ↦ .inl) (List.nil_subset _)

/-! ## Files that fail -/

theorem LeavesNothing.of_owns {directory : Path}
    (howns : ∀ name, OrderedMap.get? b.outputs name ≠ some file)
    (hwrote : b.WroteAtMost tree directory file []) : b.LeavesNothing tree directory file :=
  ⟨howns, fun _ name hclash ↦ howns name (mem_artifactNames_of_clash? hclash).2, hwrote⟩

/-- Deliveries of other files leave nothing behind on the account of a file. -/
theorem LeavesNothing.deliverAll (h : b.LeavesNothing tree config.outputDirectory file)
    (hfiles : (ds.map Delivery.file).Nodup) (hfile : file ∉ ds.map Delivery.file)
    (hnew : ∀ d ∈ ds, ∀ page, ¬ HasPage b.results d.file page)
    (hnone : (deliverAll config write b ds).failure = none) :
    (deliverAll config write b ds).LeavesNothing tree config.outputDirectory file :=
  .of_owns (fun name howner ↦ h.owns name ((owner_deliverAll_iff b hfile name).mp howner))
    (h.wrote.deliverAll hfiles hfile hnew hnone)

/-- Nor does the delivery of the file itself, if it changes neither the owners nor the files. -/
theorem LeavesNothing.deliver_self (h : b.LeavesNothing tree config.outputDirectory d.file)
    (houtputs : (deliver config write b d).outputs = b.outputs)
    (htree : (deliver config write b d).tree = b.tree) :
    (deliver config write b d).LeavesNothing tree config.outputDirectory d.file := by
  have hchanges : ReflTransGen (FileTree.Change config.outputDirectory []) b.tree
      (Build.deliver config write b d).tree := htree ▸ .refl
  refine .of_owns (fun name howner ↦ ?_) (h.wrote.deliver_self hchanges)
  rw [houtputs] at howner
  exact h.owns name howner

/-- Whether recording a page was interrupted, since its artifacts could not be written: they belong
to its file, and the error is told. -/
structure Interrupted (directory : Path) (b : Build) (page : Compiled) (e : FileError)
    (after : Build) : Prop where
  write : page.write directory b.tree = (after.tree, .error e)
  outputs : after.outputs = (b.own page).outputs
  result : OrderedMap.get? after.results page.file = some
    { file := page.file, page := some page, errors := [writeError page.file directory e] }

/-- A delivery whose file failed changes neither the owners nor the files, or it was interrupted. -/
theorem deliver_of_failed (hnone : (deliver config write b d).failure = none)
    (hfailed : ∀ r, OrderedMap.get? (deliver config write b d).results d.file = some r →
      r.success = false) :
    ((deliver config write b d).outputs = b.outputs ∧ (deliver config write b d).tree = b.tree) ∨
      write = true ∧ ∃ page e, d = .compiled page ∧
        Interrupted config.outputDirectory b page e (deliver config write b d) := by
  have hrecorded := recorded_record config write b d.file d.result
  have hresult : ∀ page, d.result = .ok page → d = .compiled page := fun _ ↦ Delivery.eq_of_result
  rw [← deliver] at hrecorded
  generalize d.result = result at hrecorded hresult
  generalize deliver config write b d = after at hrecorded hnone hfailed
  cases hrecorded with
  | rejected _ => exact .inl ⟨rfl, rfl⟩
  | abandoned _ _ _ => cases hnone
  | clash _ => exact .inl ⟨rfl, rfl⟩
  | @unasked page _ _ =>
    obtain rfl := hresult page rfl
    cases hfailed _ (OrderedMap.get?_put_self _ _ _)
  | @written page _ _ _ _ _ =>
    obtain rfl := hresult page rfl
    cases hfailed _ (OrderedMap.get?_put_self _ _ _)
  | @unwritten page _ e _ hwrite herror _ =>
    exact .inr ⟨hwrite, page, e, hresult page rfl, herror, rfl, OrderedMap.get?_put_self _ _ _⟩
  | nowhere _ _ _ _ => cases hnone

/-- Where the artifacts of a page were written up to one of them, it was none of them, or the
document and not the script. -/
theorem front_of_artifacts {front back : List (Text × Text)} {artifact : Text × Text}
    (h : page.artifacts = front ++ artifact :: back) :
    front = [] ∨ front = [(page.outputName, page.html)] ∧ page.externalFile? ≠ none := by
  cases front with
  | nil => exact .inl rfl
  | cons first rest =>
    rw [Compiled.artifacts, List.cons_append] at h
    obtain ⟨rfl, htail⟩ := List.cons.inj h
    cases hname : page.externalFile? with
    | none =>
      rw [hname] at htail
      exact absurd htail.symm (List.append_ne_nil_of_right_ne_nil _ (List.cons_ne_nil _ _))
    | some name =>
      rw [hname, Option.toList_some, List.map_singleton] at htail
      obtain ⟨rfl, -⟩ := List.append_eq_singleton_iff.mp htail.symm |>.resolve_right (by simp)
      exact .inr ⟨rfl, Option.some_ne_none _⟩

namespace Interrupted

variable {e : FileError}

theorem hasPage {directory : Path} (h : Interrupted directory b page e after) :
    HasPage after.results page.file page := ⟨_, h.result, rfl⟩

theorem owns {directory : Path} (h : Interrupted directory b page e after) : after.Owns page := by
  intro name hname
  rw [h.outputs]
  exact owns_own b page name hname

theorem owner_iff {directory : Path} (h : Interrupted directory b page e after)
    (howns : ∀ name, OrderedMap.get? b.outputs name ≠ some page.file) (name : Text) :
    OrderedMap.get? after.outputs name = some page.file ↔ name ∈ page.artifactNames := by
  rw [h.outputs, own, get?_foldl_put]
  split_ifs with hname
  · exact iff_of_true rfl hname
  · exact iff_of_false (howns name) hname

theorem wrote (h : Interrupted config.outputDirectory b page e
      (deliver config write b (.compiled page)))
    (hwrote : b.WroteAtMost tree config.outputDirectory page.file []) :
    (deliver config write b (.compiled page)).WroteAtMost tree config.outputDirectory page.file [] ∨
      (deliver config write b (.compiled page)).WroteAtMost tree config.outputDirectory page.file
          [(page.outputName, page.html)] ∧ page.externalFile? ≠ none ∧
        ∃ location, (deliver config write b (.compiled page)).tree.locate
            (config.outputDirectory.appendText page.outputName) = .ok location ∧
          (deliver config write b (.compiled page)).Produced config.outputDirectory location := by
  obtain ⟨front, artifact, more, hsplit, hchanges, hshown⟩ :=
    FileTree.exists_of_writeArtifacts_error (congrArg Prod.snd h.write)
  rw [← Compiled.write, h.write] at hchanges hshown
  have hwrote' := WroteAtMost.deliver_self (d := .compiled page) hwrote hchanges
  have hfront : front ⊆ page.artifacts := by
    rw [hsplit]
    exact List.subset_append_left _ _
  rcases front_of_artifacts hsplit with rfl | ⟨rfl, hscript⟩
  · exact .inl hwrote'
  · obtain ⟨location, hlocate, hshows⟩ := hshown _ (List.mem_singleton_self _)
    exact .inr ⟨hwrote', hscript, location, hlocate, page.file, page, h.hasPage, h.owns,
      hshows.mono hfront⟩

/-- **A page that could not be written is half written for the rest of the build.** -/
theorem halfWritten {recorded : List Text} {back : List Delivery} (hs : b.Stored config recorded)
    (hfiles : (recorded ++ page.file :: back.map Delivery.file).Nodup)
    (hsource : ∀ other, Delivery.compiled other ∈ Delivery.compiled page :: back →
      other.OfSource config.options)
    (hnone : (deliverAll config true (deliver config true b (.compiled page)) back).failure = none)
    (howns : ∀ name, OrderedMap.get? b.outputs name ≠ some page.file)
    (hwrote : b.WroteAtMost tree config.outputDirectory page.file [])
    (h : Interrupted config.outputDirectory b page e (deliver config true b (.compiled page))) :
    (deliverAll config true (deliver config true b (.compiled page)) back).HalfWritten tree
      config.outputDirectory page.file page e := by
  rw [List.append_cons] at hfiles
  obtain ⟨hfront, hback, hapart⟩ := List.nodup_append.mp hfiles
  have hnew : page.file ∉ recorded := fun hmem ↦
    (List.nodup_append.mp hfront).2.2 _ hmem _ (List.mem_singleton_self _) rfl
  have hfile : page.file ∉ back.map Delivery.file := fun hmem ↦
    hapart _ (List.mem_append_right _ (List.mem_singleton_self _)) _ hmem rfl
  obtain ⟨hstored, -⟩ := hs.deliver (d := .compiled page) hnew
    (fun other hother ↦ hsource other (hother ▸ List.mem_cons_self)) (failure_of_deliverAll hnone)
  obtain ⟨hlast, hkept⟩ := hstored.deliverAll hfiles
    (fun other hother ↦ hsource other (List.mem_cons_of_mem _ hother)) hnone
  have hunseen : ∀ d ∈ back, ∀ other,
      ¬ HasPage (deliver config true b (.compiled page)).results d.file other :=
    fun d hd other hother ↦
      hapart d.file (hstored.pages _ _ hother).1 _ (List.mem_map.mpr ⟨d, hd, rfl⟩) rfl
  have howner_iff : ∀ name, OrderedMap.get?
      (deliverAll config true (deliver config true b (.compiled page)) back).outputs name =
        some page.file ↔ name ∈ page.artifactNames := fun name ↦
    (owner_deliverAll_iff _ hfile name).trans (h.owner_iff howns name)
  have hresult := h.result
  rw [← @get?_results_deliverAll config true _ back _ hfile] at hresult
  refine ⟨hresult, howner_iff, ?_, ?_⟩
  · rintro other hne ⟨name, hother, hname⟩ hfree
    exact hne (eq_file_of_clash?_eq_none hfree hother ((howner_iff name).mpr hname)).symm
  · rcases h.wrote hwrote with hnothing | ⟨hdocument, hscript, location, hlocate, hproduced⟩
    · exact .inl (hnothing.deliverAll hback hfile hunseen hnone)
    · refine .inr ⟨hdocument.deliverAll hback hfile hunseen hnone, hscript, ?_⟩
      obtain ⟨hlocate', hproduced'⟩ := hkept _ _ hlocate hproduced
      exact hlast.readBytes_of_produced ⟨_, hresult, rfl⟩
        (fun name hname ↦ (howner_iff name).mpr hname) hlocate' hproduced'

end Interrupted

theorem failed_deliverAll (hs : b.Stored config []) (hfiles : (ds.map Delivery.file).Nodup)
    (hsource : ∀ page, Delivery.compiled page ∈ ds → page.OfSource config.options)
    (hnone : (deliverAll config write b ds).failure = none) {r : FileResult}
    (hr : OrderedMap.get? (deliverAll config write b ds).results file = some r)
    (hfailed : r.success = false) :
    (deliverAll config write b ds).LeavesNothing b.tree config.outputDirectory file ∨
      ∃ page e, (deliverAll config write b ds).HalfWritten b.tree config.outputDirectory file
        page e := by
  have hpages : ∀ other page, ¬ HasPage b.results other page := fun other page hpage ↦
    absurd (hs.pages other page hpage).1 List.not_mem_nil
  have hstart : b.LeavesNothing b.tree config.outputDirectory file :=
    .of_owns (fun name howner ↦ absurd (hs.owners name file howner) List.not_mem_nil)
      (fun _ _ ↦ .inl)
  by_cases hfile : file ∈ ds.map Delivery.file
  · obtain ⟨d, hd, rfl⟩ := List.mem_map.mp hfile
    obtain ⟨front, back, rfl⟩ := List.append_of_mem hd
    rw [deliverAll_append] at hnone hr ⊢
    rw [List.map_append] at hfiles
    obtain ⟨hfront, hrest, hapart⟩ := List.nodup_append.mp hfiles
    obtain ⟨hback, hback'⟩ := List.nodup_cons.mp hrest
    have hnone' : (deliverAll config write b front).failure = none := failure_of_deliverAll hnone
    have hbefore := hstart.deliverAll hfront (fun hmem ↦ hapart _ hmem _ List.mem_cons_self rfl)
      (fun _ _ ↦ hpages _) hnone'
    have hresult : ∀ r', OrderedMap.get?
        (deliver config write (deliverAll config write b front) d).results d.file = some r' →
          r'.success = false := by
      intro r' hr'
      rw [deliverAll_cons, get?_results_deliverAll _ hback, hr'] at hr
      rwa [Option.some.inj hr]
    rcases deliver_of_failed (failure_of_deliverAll hnone) hresult with
      ⟨houtputs, htree⟩ | ⟨rfl, page, e, rfl, hinterrupted⟩
    · left
      apply (hbefore.deliver_self houtputs htree).deliverAll hback' hback ?_ hnone
      intro other hother page hpage
      have hmem : other.file ∈ back.map Delivery.file := List.mem_map.mpr ⟨other, hother, rfl⟩
      rw [hasPage_deliver_iff (fun heq ↦ hback (heq ▸ hmem)), HasPage,
        get?_results_deliverAll b fun h ↦ hapart _ h _ (List.mem_cons_of_mem _ hmem) rfl] at hpage
      exact hpages _ page hpage
    · right
      obtain ⟨hstored, -⟩ := hs.deliverAll hfront
        (fun page hpage ↦ hsource page (List.mem_append_left _ hpage)) hnone'
      exact ⟨page, e, hinterrupted.halfWritten hstored hfiles (fun other hother ↦
        hsource other (List.mem_append_right _ hother)) hnone hbefore.owns hbefore.wrote⟩
  · exact .inl (hstart.deliverAll hfiles hfile (fun _ _ ↦ hpages _) hnone)

/-! ## Runs -/

theorem LeavesNothing.of_sameRecords {b' : Build} {directory : Path}
    (h : b'.LeavesNothing tree directory file) (hsame : SameRecords b b') :
    b.LeavesNothing tree directory file := by
  obtain ⟨tree, schedule, registry, results, findings, outputs, written, notes, failure⟩ := b
  obtain ⟨rfl, rfl, -, rfl, -⟩ := hsame
  exact ⟨h.owns, h.blocks, h.wrote⟩

theorem HalfWritten.of_sameRecords {b' : Build} {directory : Path} {e : FileError}
    (h : b'.HalfWritten tree directory file page e) (hsame : SameRecords b b') :
    b.HalfWritten tree directory file page e := by
  obtain ⟨tree, schedule, registry, results, findings, outputs, written, notes, failure⟩ := b
  obtain ⟨rfl, rfl, -, rfl, -⟩ := hsame
  exact ⟨h.result, h.owns_iff, h.blocks, h.wrote⟩

theorem exists_result_of_mem_failed {g : ImportGraph} {stage : Stage} (hs : stage.Sound g)
    (h : file ∈ stage.build.failed) :
    ∃ r, OrderedMap.get? stage.build.results file = some r ∧ r.success = false := by
  obtain ⟨⟨f, r⟩, hmem, rfl⟩ := List.mem_map.mp h
  obtain ⟨hresult, hfailed⟩ := List.mem_filter.mp hmem
  exact ⟨r, OrderedMap.get?_of_mem hs.nodup_results hresult, (Bool.not_eq_true' _).mp hfailed⟩

/-- **A failed file leaves nothing behind, unless it was writing that failed.** At every stage of
every run that is not given up, a file that failed leaves nothing behind, or its page could not be
written, and it is half written. -/
theorem Loop.failed_file_leaves_nothing_unless_writing_failed {files : List Path}
    (loop : Loop config tree files) {stage : Stage} (hreach : loop.Reaches write stage)
    (hnone : stage.build.failure = none) (hfile : file ∈ stage.build.failed) :
    stage.build.LeavesNothing tree config.outputDirectory file ∨
      ∃ page e, stage.build.HalfWritten tree config.outputDirectory file page e := by
  obtain ⟨r, hr, hfailed⟩ := exists_result_of_mem_failed (loop.sound_of_reaches hreach) hfile
  have hrecorded := loop.nodup_recorded hreach
  obtain ⟨ds, hfiles, hsource, hsame⟩ := loop.exists_deliveries hreach hnone
  rw [← hfiles] at hrecorded
  rw [hsame.results] at hr
  have hleft := failed_deliverAll loop.stored_read hrecorded hsource
    (hsame.failure.symm.trans hnone) hr hfailed
  rw [loop.hasRead.tree_eq] at hleft
  rcases hleft with hnothing | ⟨page, e, hhalf⟩
  · exact .inl (hnothing.of_sameRecords hsame)
  · exact .inr ⟨page, e, hhalf.of_sameRecords hsame⟩

/-- Two pages with one document, the first with a script in a directory that is a file. -/
def blockedScript : FileTree where
  nodes :=
    [(["dist"], .directory), (["dist", "x"], .file (Utf8.encode "taken")),
     (["a.mtm"], .file (Utf8.encode
      "---\nroute: /a/b\ncompileJsMode: x/app.js\n---\n<template>a</template>")),
     (["b.mtm"], .file (Utf8.encode "---\nroute: /a-b\n---\n<template>b</template>"))]

def blockedScriptPaths : List Path := [Path.ofText "a.mtm", Path.ofText "b.mtm"]

/-- Of these pages the first is half written and the second, which is refused on its account, leaves
nothing behind. -/
theorem blocked_script_half_written :
    ∃ (loop : Loop {} blockedScript blockedScriptPaths) (stage : Stage),
      loop.Reaches true stage ∧ stage.build.failed = [("a.mtm" : Text), ("b.mtm" : Text)] ∧
        (∃ page e, stage.build.HalfWritten blockedScript (Path.ofText "dist") "a.mtm" page e) ∧
        stage.build.LeavesNothing blockedScript (Path.ofText "dist") "b.mtm" := by
  have hrun : (run {} true blockedScript blockedScriptPaths).failure = none ∧
      (run {} true blockedScript blockedScriptPaths).failed =
        [("a.mtm" : Text), ("b.mtm" : Text)] ∧
      OrderedMap.get? (run {} true blockedScript blockedScriptPaths).outputs "a-b.html" =
        some ("a.mtm" : Text) ∧
      ∀ entry ∈ (run {} true blockedScript blockedScriptPaths).outputs,
        entry.2 ≠ ("b.mtm" : Text) := by decide +kernel
  obtain ⟨hnone, hfailed, howner, hothers⟩ := hrun
  obtain ⟨loop, stage, hreach, -, hnone', heq⟩ := exists_stage_of_run hnone
  rw [heq] at hfailed howner hothers
  have hfailed' : stage.build.failed = [("a.mtm" : Text), ("b.mtm" : Text)] := hfailed
  have hfirst : ("a.mtm" : Text) ∈ stage.build.failed := by simp [hfailed']
  have hsecond : ("b.mtm" : Text) ∈ stage.build.failed := by simp [hfailed']
  refine ⟨loop, stage, hreach, hfailed', ?_, ?_⟩
  · apply (loop.failed_file_leaves_nothing_unless_writing_failed hreach hnone' hfirst).resolve_left
    intro hnothing
    exact hnothing.owns "a-b.html" howner
  · apply
      (loop.failed_file_leaves_nothing_unless_writing_failed hreach hnone' hsecond).resolve_right
    rintro ⟨page, e, hhalf⟩
    have hdocument := (hhalf.owns_iff _).mpr (List.mem_map_of_mem (mem_artifacts.mpr (.inl rfl)))
    exact hothers _ (OrderedMap.mem_of_get? hdocument) rfl

/-- A failed file can leave something behind: the first of these pages failed, and still it owns its
document, which is there and was not before, and the second is refused on its account. -/
theorem failed_page_keeps_its_document :
    ∃ (loop : Loop {} blockedScript blockedScriptPaths) (stage : Stage),
      loop.Reaches true stage ∧ (¬ ∃ next, loop.Step true stage next) ∧
        stage.build.failure = none ∧ ("a.mtm" : Text) ∈ stage.build.failed ∧
        OrderedMap.get? stage.build.outputs "a-b.html" = some ("a.mtm" : Text) ∧
        (OrderedMap.get? stage.build.results "b.mtm").map FileResult.errors =
          some [clashError "b.mtm" "a-b.html" "a.mtm"] ∧
        stage.build.tree.askFile (Path.ofText "dist/a-b.html") = .ok true ∧
        blockedScript.askFile (Path.ofText "dist/a-b.html") = .ok false := by
  have hrun : (run {} true blockedScript blockedScriptPaths).failure = none ∧
      ("a.mtm" : Text) ∈ (run {} true blockedScript blockedScriptPaths).failed ∧
      OrderedMap.get? (run {} true blockedScript blockedScriptPaths).outputs "a-b.html" =
        some ("a.mtm" : Text) ∧
      (OrderedMap.get? (run {} true blockedScript blockedScriptPaths).results "b.mtm").map
          FileResult.errors = some [clashError "b.mtm" "a-b.html" "a.mtm"] ∧
      (run {} true blockedScript blockedScriptPaths).tree.askFile (Path.ofText "dist/a-b.html") =
        .ok true ∧
      blockedScript.askFile (Path.ofText "dist/a-b.html") = .ok false := by decide +kernel
  obtain ⟨loop, stage, hreach, hlast, hnone, heq⟩ := exists_stage_of_run hrun.1
  rw [heq] at hrun
  exact ⟨loop, stage, hreach, hlast, hrun⟩

end Build

end PageCompiler
