import PageCompiler.Proofs.ClosingTags
import PageCompiler.Proofs.WrittenArtifacts

/-!
# Where artifacts are written

An artifact goes where its name leads from the output directory, and a name may lead out of it: it
may be absolute, or lead further up than it has come down. Where a path leads can be told without
looking at files (`FileTree.place`), since a walk that succeeds comes to the same place. So can
whether it leads out of a directory: from the last components of the directory, as many as it
climbs, and the components it comes down by (`Path.LeadsOut`).

The names of documents go down only, and so do the names of script files that are made from the
names of components, so that these artifacts are always inside the output directory. What leads out
is a script file that the metadata asked for by such a name.
-/

namespace PageCompiler

open Relation

/-! ## Paths without files -/

namespace Path

/-- Whether a location is inside a directory. -/
def Within (directory location : List Text) : Prop := directory <+: location ∧ location ≠ directory

instance (directory location : List Text) : Decidable (Within directory location) :=
  inferInstanceAs (Decidable (_ ∧ _))

/-- How far components lead up from where they start, and where they lead down from there, given how
far they have led up and down so far. -/
def climbFrom : (height : Nat) → (below : List Text) → List Text → Nat × List Text
  | height, below, [] => (height, below.reverse)
  | height, [], p :: ps =>
    if p = up then climbFrom (height + 1) [] ps else climbFrom height [p] ps
  | height, q :: below, p :: ps =>
    if p = up then climbFrom height below ps else climbFrom height (p :: q :: below) ps

/-- How far components lead up from where they start, and where they lead down from there. -/
def climb (parts : List Text) : Nat × List Text := climbFrom 0 [] parts

/-- Whether a path, seen from a directory, leads out of it. A relative path stays inside if it comes
down again by the components of the directory that it climbs. -/
def LeadsOut (directory : List Text) (p : Path) : Prop :=
  if p.isAbsolute then ¬ Within directory (normalParts [] p.parts)
  else ¬ Within (directory.drop (directory.length - (climb p.parts).1)) (climb p.parts).2

instance (directory : List Text) (p : Path) : Decidable (p.LeadsOut directory) :=
  inferInstanceAs (Decidable (if p.isAbsolute then ¬ Within directory (normalParts [] p.parts)
    else ¬ Within (directory.drop (directory.length - (climb p.parts).1)) (climb p.parts).2))

theorem within_append_left_iff (front directory location : List Text) :
    Within (front ++ directory) (front ++ location) ↔ Within directory location := by
  rw [Within, Within, List.prefix_append_right_inj, Ne, List.append_cancel_left_eq]

theorem normalParts_append (above front back : List Text) :
    normalParts above (front ++ back) = normalParts (normalParts above front).reverse back := by
  induction front generalizing above with
  | nil => rw [List.nil_append, normalParts, List.reverse_reverse]
  | cons p rest ih =>
    rw [List.cons_append, normalParts, normalParts]
    split_ifs
    · exact ih _
    · exact ih _

/-- What is resolved is what is left of the start after climbing, and what is below. -/
theorem normalParts_eq_climbFrom (above : List Text) (height : Nat) (below ps : List Text) :
    normalParts (below ++ above.drop height) ps =
      (above.drop (climbFrom height below ps).1).reverse ++ (climbFrom height below ps).2 := by
  fun_induction climbFrom height below ps with
  | case1 height below => rw [normalParts, List.reverse_append]
  | case2 height ps ih =>
    rw [normalParts, if_pos rfl, List.nil_append, List.drop_drop]
    exact ih
  | case3 height p ps hp ih =>
    rw [normalParts, if_neg hp]
    exact ih
  | case4 height q below ps ih =>
    rw [normalParts, if_pos rfl]
    exact ih
  | case5 height q below p ps hp ih =>
    rw [normalParts, if_neg hp]
    exact ih

theorem climbFrom_of_notMem {parts : List Text} (h : up ∉ parts) (height : Nat)
    (below : List Text) : climbFrom height below parts = (height, below.reverse ++ parts) := by
  fun_induction climbFrom height below parts with
  | case1 height below => rw [List.append_nil]
  | case2 height ps ih => exact absurd List.mem_cons_self h
  | case3 height p ps hp ih =>
    rw [ih (List.not_mem_of_not_mem_cons h)]
    rfl
  | case4 height q below ps ih => exact absurd List.mem_cons_self h
  | case5 height q below p ps hp ih =>
    rw [ih (List.not_mem_of_not_mem_cons h), List.reverse_cons (a := p), List.append_assoc]
    rfl

theorem IsPlain.not_leadsOut {p : Path} (h : p.IsPlain) (hparts : p.parts ≠ [])
    (directory : List Text) : ¬ p.LeadsOut directory := by
  have hrelative : p.isAbsolute = false := by
    rw [isAbsolute, h.1]
    rfl
  rw [LeadsOut, hrelative, climb, climbFrom_of_notMem h.2, Nat.sub_zero, List.drop_length]
  rw [if_neg Bool.false_ne_true, not_not]
  exact ⟨List.nil_prefix, hparts⟩

end Path

namespace FileTree

variable {tree after : FileTree} {location : List Text}

/-- The location that a path names, with double points resolved without looking at files. -/
def place (tree : FileTree) (path : Path) : List Text :=
  Path.normalParts (tree.base path).reverse path.parts

/-- A walk comes to where the components lead. -/
theorem eq_normalParts_of_walk {start parts : List Text}
    (h : tree.walk start parts = .ok location) :
    location = Path.normalParts start.reverse parts := by
  induction parts generalizing start with
  | nil =>
    rw [Path.normalParts, List.reverse_reverse]
    exact (Except.ok.inj h).symm
  | cons p rest ih =>
    obtain ⟨-, -, hrest⟩ := walk_cons_eq_ok_iff.mp h
    rw [Path.normalParts]
    split_ifs at hrest ⊢ with hup
    · rw [ih hrest, List.drop_one, List.tail_reverse]
    · rw [ih hrest, List.reverse_append]
      rfl

theorem eq_place_of_locate {path : Path} (h : tree.locate path = .ok location) :
    location = tree.place path := eq_normalParts_of_walk (locate_eq_ok_iff.mp h).2.2

theorem Keeps.place (h : Keeps tree after) (path : Path) : after.place path = tree.place path := by
  rw [FileTree.place, FileTree.place, base, base, h.cwd]

theorem path_of_writeArtifact {directory path : Path} {name content : Text}
    (h : tree.writeArtifact directory name content = (after, .ok path)) :
    path = directory.appendText name := by
  rw [writeArtifact] at h
  split at h
  · cases h
  · split at h
    · cases h
    · exact (Except.ok.inj (congrArg Prod.snd h)).symm

theorem paths_of_writeArtifacts {directory : Path} {artifacts : List (Text × Text)}
    {paths : List Path} (h : (tree.writeArtifacts directory artifacts).2 = .ok paths) :
    paths = artifacts.map fun artifact ↦ directory.appendText artifact.1 := by
  induction artifacts generalizing tree paths with
  | nil => exact (Except.ok.inj h).symm
  | cons first rest ih =>
    obtain ⟨name, content⟩ := first
    rw [writeArtifacts] at h
    split at h
    · cases h
    · next written path hwritten =>
      obtain ⟨more, hmore, rfl⟩ := exists_of_map_eq_ok h
      rw [ih hmore, List.map_cons, path_of_writeArtifact hwritten]

/-- **A path below a directory is inside it exactly if it does not lead out of it.** -/
theorem within_place_iff (tree : FileTree) (directory p : Path) :
    Path.Within (tree.place directory) (tree.place (directory.append p)) ↔
      ¬ p.LeadsOut (tree.place directory) := by
  rw [Path.LeadsOut, Path.append]
  split_ifs with habsolute
  · rw [not_not, place, place, base, base, if_pos habsolute]
    rfl
  · have hplace : tree.place ⟨directory.root, directory.parts ++ p.parts⟩ =
        (tree.place directory).take ((tree.place directory).length - (Path.climb p.parts).1) ++
          (Path.climb p.parts).2 := by
      have hclimb := Path.normalParts_eq_climbFrom (tree.place directory).reverse 0 [] p.parts
      rw [List.nil_append, List.drop_zero, List.drop_reverse, List.reverse_reverse] at hclimb
      rw [place, Path.normalParts_append]
      exact hclimb
    generalize hheight : (tree.place directory).length - (Path.climb p.parts).1 = kept at hplace ⊢
    rw [not_not, hplace]
    nth_rewrite 1 [← List.take_append_drop kept (tree.place directory)]
    exact Path.within_append_left_iff _ _ _

end FileTree

/-! ## Names of artifacts -/

namespace ScriptMode

theorem slash_notMem_fileChar (c : Char) : '/' ∉ fileChar c := by
  unfold fileChar
  split_ifs with hletter hdigit
  · intro hslash
    obtain rfl := Script.eq_of_toLower_eq (.inr rfl) (List.mem_singleton.mp hslash).symm
    exact absurd hletter (by decide)
  · intro hslash
    rw [← List.mem_singleton.mp hslash] at hdigit
    exact absurd hdigit (by decide)
  · decide
  · decide
  · decide

/-- The script file of a component has a name that goes down, whatever the component is called. -/
theorem isPlain_externalFile (name : Text) : (Path.ofText (externalFile name)).IsPlain := by
  have hslash : '/' ∉ name.flatMap fileChar ++ (".js" : Text) := by
    rw [List.mem_append, List.mem_flatMap, not_or]
    refine ⟨?_, by decide⟩
    rintro ⟨c, -, hc⟩
    exact slash_notMem_fileChar c hc
  have hparts : Text.splitOn '/' (externalFile name) =
      [("js" : Text), name.flatMap fileChar ++ (".js" : Text)] := by
    have hname : externalFile name =
        ("js" : Text) ++ '/' :: (name.flatMap fileChar ++ (".js" : Text)) := by
      rw [externalFile, List.append_assoc]
      rfl
    rw [hname, Text.splitOn_append_cons (by decide), Text.splitOn_of_notMem hslash]
  refine ⟨rfl, fun hup ↦ ?_⟩
  have hmem := (List.mem_filter.mp hup).1
  rw [hparts, List.mem_cons, List.mem_singleton] at hmem
  rcases hmem with hdirectory | hfile
  · exact absurd hdirectory (by decide)
  · refine Path.ne_up_of_length ?_ hfile.symm
    rw [List.length_append]
    exact Nat.le_add_left 3 _

end ScriptMode

/-! ## Writing a page -/

/-- Where the artifacts of a page are written below a directory, in a tree. -/
structure Compiled.Placed (page : Compiled) (directory : Path) (tree : FileTree) : Prop where
  /-- Nothing is written but artifacts, each at the place its name leads to. -/
  written : ∀ location bytes,
    (page.write directory tree).1.at? location = some (.file bytes) →
      tree.at? location = some (.file bytes) ∨ ∃ artifact ∈ page.artifacts,
        location = tree.place (directory.appendText artifact.1) ∧ bytes = Utf8.encode artifact.2
  /-- Where all artifacts can be written, each is at the place its name leads to. -/
  complete : ∀ paths, (page.write directory tree).2 = .ok paths →
    paths = page.artifacts.map (fun artifact ↦ directory.appendText artifact.1) ∧
      ∀ artifact ∈ page.artifacts,
        (page.write directory tree).1.at? (tree.place (directory.appendText artifact.1)) =
          some (.file (Utf8.encode artifact.2))
  /-- That place is inside the directory exactly if the name does not lead out of it. -/
  inside_iff : ∀ artifact ∈ page.artifacts,
    (Path.Within (tree.place directory) (tree.place (directory.appendText artifact.1)) ↔
      ¬ (Path.ofText artifact.1).LeadsOut (tree.place directory))
  /-- Only the name of a script file that was asked for leads out, and only if it is absolute or
  leads up. -/
  asked : ∀ artifact ∈ page.artifacts,
    (Path.ofText artifact.1).LeadsOut (tree.place directory) →
      page.mode = { kind := .custom, file := some artifact.1 } ∧
        ¬ (Path.ofText artifact.1).IsPlain

namespace Compiled.OfSource

variable {options : CompileOptions} {page : Compiled}

/-- Names that go down lead nowhere else: that of a document, and that of a script file unless the
page asked for it. -/
theorem isPlain_or_asked (h : page.OfSource options) {artifact : Text × Text}
    (hmem : artifact ∈ page.artifacts) : (Path.ofText artifact.1).IsPlain ∨
      page.mode = { kind := .custom, file := some artifact.1 } := by
  rcases Build.mem_artifacts.mp hmem with rfl | ⟨name, hname, rfl⟩
  · exact .inl h.named.isPlain_outputName
  · obtain ⟨mode, hmode, -, hpage, -⟩ := h.finish
    rw [externalFile?, hpage] at hname
    rcases hmode with rfl | rfl | ⟨requested, -, rfl⟩
    · cases hname
    · obtain rfl := Option.some.inj hname
      exact .inl (ScriptMode.isPlain_externalFile _)
    · obtain rfl := Option.some.inj hname
      exact .inr hpage

theorem parts_ne_nil (h : page.OfSource options) {artifact : Text × Text}
    (hmem : artifact ∈ page.artifacts) : (Path.ofText artifact.1).parts ≠ [] := by
  rcases Build.mem_artifacts.mp hmem with rfl | ⟨name, hname, rfl⟩
  · obtain ⟨front, heq⟩ := h.named.ofText_outputName
    rw [heq]
    exact List.cons_ne_nil _ _
  · obtain ⟨pieces, last, hparts⟩ := h.named.parts_script hname
    rw [hparts]
    exact List.append_ne_nil_of_right_ne_nil _ (List.cons_ne_nil _ _)

theorem eq_of_locate (h : page.OfSource options) {tree : FileTree} {directory : Path}
    {location : List Text} {artifact other : Text × Text} (hmem : artifact ∈ page.artifacts)
    (hother : other ∈ page.artifacts)
    (hlocate : tree.locate (directory.appendText artifact.1) = .ok location)
    (hlocate' : tree.locate (directory.appendText other.1) = .ok location) : artifact = other := by
  rcases Build.mem_artifacts.mp hmem with rfl | ⟨name, hname, rfl⟩
  · rcases Build.mem_artifacts.mp hother with rfl | ⟨name, hname, rfl⟩
    · rfl
    · exact absurd hlocate' (h.named.locate_outputName_ne h.named hname hlocate)
  · rcases Build.mem_artifacts.mp hother with rfl | ⟨name', hname', rfl⟩
    · exact absurd hlocate (h.named.locate_outputName_ne h.named hname hlocate')
    · rw [Option.some.inj (hname.symm.trans hname')]

/-- **Artifacts are written inside the output directory, unless a page asks for a script file by a
name that leads out of it.** -/
theorem artifacts_inside_unless_asked_out (h : page.OfSource options) (directory : Path)
    (tree : FileTree) : page.Placed directory tree := by
  have hchanges : ReflTransGen (FileTree.Change directory page.artifacts) tree
      (page.write directory tree).1 := FileTree.changes_write rfl
  have hkeeps := (FileTree.receives_of_changes hchanges).toKeeps
  refine ⟨fun location bytes hat ↦ ?_, fun paths hpaths ↦ ?_, fun artifact _ ↦ ?_,
    fun artifact hmem hout ↦ ?_⟩
  · rcases FileTree.origin_of_changes hchanges hat with hbefore | ⟨artifact, hmem, hlocate, hat'⟩
    · exact .inl hbefore
    · refine .inr ⟨artifact, hmem, ?_, ?_⟩
      · rw [← hkeeps.place]
        exact FileTree.eq_place_of_locate hlocate
      · exact Node.file.inj (Option.some.inj (hat.symm.trans hat'))
  · refine ⟨FileTree.paths_of_writeArtifacts hpaths, fun artifact hmem ↦ ?_⟩
    obtain ⟨-, hall⟩ :=
      FileTree.receives_writeArtifacts tree directory (List.Subset.refl page.artifacts)
    rw [← Compiled.write] at hall
    obtain ⟨location, hlocate, other, hother, hlocate', hat⟩ := hall paths hpaths artifact hmem
    obtain rfl := h.eq_of_locate hmem hother hlocate hlocate'
    rw [← hkeeps.place, ← FileTree.eq_place_of_locate hlocate]
    exact hat
  · exact FileTree.within_place_iff tree directory (Path.ofText artifact.1)
  · have hup : ¬ (Path.ofText artifact.1).IsPlain := fun hplain ↦
      hplain.not_leadsOut (h.parts_ne_nil hmem) _ hout
    exact ⟨(h.isPlain_or_asked hmem).resolve_left hup, hup⟩

end Compiled.OfSource

def scriptPage (script : Text) : Text :=
  "---\ncompileJsMode: " ++ script ++ "\n---\n<template>x</template>"

/-- A name that climbs out of the output directory and comes down into it again is inside. -/
theorem detour_stays_inside :
    ∃ page, (Compile.source {} {} {} "a.mtm" (scriptPage "../dist/app.js")).result = .ok page ∧
      page.externalFile? = some ("../dist/app.js" : Text) ∧
      Path.Within ["dist"]
        (FileTree.place {} ((Path.ofText "dist").appendText "../dist/app.js")) := by
  have hscript : (Compile.source {} {} {} "a.mtm" (scriptPage "../dist/app.js")).result.toOption.any
      (fun page ↦ page.externalFile? = some ("../dist/app.js" : Text)) = true := by decide +kernel
  rcases hresult : (Compile.source {} {} {} "a.mtm" (scriptPage "../dist/app.js")).result with
    e | page
  · rw [hresult] at hscript
    cases hscript
  · rw [hresult] at hscript
    have hname := of_decide_eq_true hscript
    have hplaced := Compiled.OfSource.artifacts_inside_unless_asked_out
      ⟨_, _, _, _, hresult⟩ (Path.ofText "dist") {}
    have hstays : ¬ (Path.ofText "../dist/app.js").LeadsOut
        (FileTree.place {} (Path.ofText "dist")) := by decide
    refine ⟨page, rfl, hname, (hplaced.inside_iff ("../dist/app.js", page.script) ?_).mpr hstays⟩
    exact Build.mem_artifacts.mpr (.inr ⟨_, hname, rfl⟩)

/-- A script can be written outside the output directory, by a name that leads up. -/
theorem script_written_above_directory :
    ∃ page paths, (Compile.source {} {} {} "a.mtm" (scriptPage "../app.js")).result = .ok page ∧
      (page.write (Path.ofText "dist") {}).2 = .ok paths ∧
      (page.write (Path.ofText "dist") {}).1.askFile (Path.ofText "app.js") = .ok true ∧
      ¬ Path.Within (FileTree.place {} (Path.ofText "dist"))
        (FileTree.place {} (Path.ofText "app.js")) := by
  have hwritten : (Compile.source {} {} {} "a.mtm" (scriptPage "../app.js")).result.toOption.any
      (fun page ↦ (page.write (Path.ofText "dist") {}).2 =
          .ok [Path.ofText "dist/index.html", Path.ofText "dist/../app.js"] ∧
        (page.write (Path.ofText "dist") {}).1.askFile (Path.ofText "app.js") = .ok true) =
          true := by
    decide +kernel
  rcases hresult : (Compile.source {} {} {} "a.mtm" (scriptPage "../app.js")).result with e | page
  · rw [hresult] at hwritten
    cases hwritten
  · rw [hresult] at hwritten
    obtain ⟨hpaths, hfile⟩ := of_decide_eq_true hwritten
    exact ⟨page, _, rfl, hpaths, hfile, by decide⟩

end PageCompiler
