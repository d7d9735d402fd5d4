import PageCompiler.Proofs.BuildSteps
import PageCompiler.Proofs.RouteOwnership

/-!
# Compiled and rejected pages

A page claims its route half way through: after its metadata was checked and its imports were looked
for, and before its script mode is chosen and its program generated. A claim is for good, so nothing
behind it may reject the page, or the route would belong to a page that there is not.

Nothing does. The only step behind the claim that can reject a page is the choice of the script
mode, and it accepts whatever the check of the metadata accepted; what is wrong with a template is
only warned about. So `Compile.source_cases` has two cases: either there is no page and the routes
are what they were, or the route was claimed and the rest of the work does not reject the page.
-/

namespace PageCompiler

/-! ## Script modes -/

theorem FrontMatter.isScriptMode_of_problems {fields : FrontMatter} {file : Option Text}
    (h : fields.problems file = []) {requested : Text}
    (hrequested : fields.scriptMode? = some requested) : isScriptMode requested = true := by
  obtain ⟨-, hmode⟩ := List.append_eq_nil_iff.mp h
  by_contra hnone
  rw [modeProblem?, hrequested, Option.bind_some, if_neg hnone] at hmode
  exact absurd hmode (List.cons_ne_nil _ _)

namespace ScriptMode

variable {fields : FrontMatter} {preference : Preference} {name : Text} {file : Option Text}

/-- The script is part of the page, or it has the file named after the component, or the file that
the metadata asks for. -/
theorem choose_eq_ok {mode : ScriptMode} (h : choose fields preference name file = .ok mode) :
    mode = inline ∨ mode = external name ∨
      ∃ requested, fields.scriptMode? = some requested ∧ Text.endsWith requested ".js" = true ∧
        mode = { kind := .custom, file := some requested } := by
  unfold choose at h
  split at h
  · next requested hrequested =>
    split_ifs at h with hinline hexternal hends
    · exact .inl (Except.ok.inj h).symm
    · exact .inr (.inl (Except.ok.inj h).symm)
    · exact .inr (.inr ⟨requested, hrequested, hends, (Except.ok.inj h).symm⟩)
  · split_ifs at h
    · exact .inl (Except.ok.inj h).symm
    · exact .inr (.inl (Except.ok.inj h).symm)
    · exact .inl (Except.ok.inj h).symm

/-- Metadata without problems has a script mode, whatever the build prefers. -/
theorem exists_choose {checked : Option Text} (h : fields.problems checked = [])
    (preference : Preference) (name : Text) (file : Option Text) :
    ∃ mode, choose fields preference name file = .ok mode := by
  unfold choose
  split
  · next requested hrequested =>
    have hmode := FrontMatter.isScriptMode_of_problems h hrequested
    split_ifs with hinline hexternal hends
    · exact ⟨_, rfl⟩
    · exact ⟨_, rfl⟩
    · exact ⟨_, rfl⟩
    · rw [FrontMatter.isScriptMode, Bool.or_eq_true, Bool.or_eq_true, beq_iff_eq,
        beq_iff_eq] at hmode
      rcases hmode with (hrequested | hrequested) | hrequested
      · exact absurd hrequested hinline
      · exact absurd hrequested hexternal
      · exact absurd hrequested hends
  · split_ifs
    · exact ⟨_, rfl⟩
    · exact ⟨_, rfl⟩
    · exact ⟨_, rfl⟩

end ScriptMode

/-! ## The way of a source -/

namespace Compile

variable (options : CompileOptions) (tree : FileTree) (registry : Route.Registry)
  (file text : Text)

/-- With its mode chosen a page is not rejected any more: there it is, or a numeral or a path ended
the run. -/
theorem finish_ne_rejected (tokens : List Source.Token) (warnings : List Diagnostic)
    (c : Component) (mode : ScriptMode) (d : Diagnostic) :
    (finish options tree tokens warnings c mode).1 ≠ .error (.rejected d) := by
  intro h
  rw [finish] at h
  split at h
  · cases h
  · simp only [generate] at h
    split at h
    · cases h
    · cases h

theorem registry_of_claimRoute_eq_error {c : Component} {d : Diagnostic} {after : Route.Registry}
    (h : claimRoute registry c = (.error d, after)) : after = registry := by
  unfold claimRoute at h
  split at h
  · cases h
  · obtain ⟨hclaim, rfl⟩ := Prod.mk.inj h
    exact Route.Registry.registry_of_refused (eq_error_of_map_eq_error hclaim)

/-- A source either has no page, and then nothing was claimed, or its component was read, its route
was claimed and its mode was chosen, and the page is finished from these. -/
theorem source_cases :
    ((source options tree registry file text).registry = registry ∧
      ∃ e, (source options tree registry file text).result = .error e) ∨
    ∃ c notes mode tokens warnings, c.file = file ∧
      c.fields = (FrontMatter.extract text).fields ∧
      claimRoute registry c = (.ok notes, (source options tree registry file text).registry) ∧
      ScriptMode.choose c.fields options.preference c.name (some file) = .ok mode ∧
      (source options tree registry file text).result =
        (finish options tree tokens warnings c mode).1 := by
  unfold source
  dsimp only
  split
  · exact .inl ⟨rfl, _, rfl⟩
  · next hproblems =>
    split
    · exact .inl ⟨rfl, _, rfl⟩
    · next c hread =>
      obtain ⟨hfile, hfields⟩ := Component.file_fields_of_read hread
      rw [component]
      split
      · next d refused hclaim => exact .inl ⟨registry_of_claimRoute_eq_error _ hclaim, _, rfl⟩
      · next notes claimed hclaim =>
        -- The fields were checked before, so there is a mode for them.
        rw [← hfields] at hproblems
        obtain ⟨mode, hmode⟩ :=
          ScriptMode.exists_choose hproblems options.preference c.name (some c.file)
        rw [hmode]
        rw [hfile] at hmode
        exact .inr ⟨c, notes, mode, _, _, hfile, hfields, hclaim, hmode, rfl⟩

/-- **A rejected page claims nothing.** Whatever rejects a page, the routes are what they were
before; metadata that was checked always has a script mode; and a page that there is has claimed its
route for its file. -/
theorem rejected_page_claims_nothing :
    (∀ d, (source options tree registry file text).result = .error (.rejected d) →
      (source options tree registry file text).registry = registry) ∧
    (∀ (fields : FrontMatter) (checked : Option Text), fields.problems checked = [] →
      ∀ preference name asked, ∃ mode,
        ScriptMode.choose fields preference name asked = .ok mode) ∧
    ∀ page, (source options tree registry file text).result = .ok page →
      ∀ route, (FrontMatter.extract text).fields.route? = some route →
        ∃ entry, registry.register route file =
          (.ok entry, (source options tree registry file text).registry) := by
  refine ⟨fun d hrejected ↦ ?_, fun fields checked ↦ ScriptMode.exists_choose, ?_⟩
  · rcases source_cases options tree registry file text with ⟨hsame, -⟩ |
      ⟨c, notes, mode, tokens, warnings, -, -, -, -, hfinish⟩
    · exact hsame
    · exact absurd (hfinish.symm.trans hrejected) (finish_ne_rejected _ _ _ _ _ _ _)
  · intro page hpage route hroute
    rcases source_cases options tree registry file text with ⟨-, e, herror⟩ |
      ⟨c, notes, mode, tokens, warnings, hfile, hfields, hclaim, -, -⟩
    · rw [hpage] at herror
      cases herror
    · have hroute' : c.route? = some route := by rw [Component.route?, hfields, hroute]
      simp only [claimRoute, hroute', hfile] at hclaim
      obtain ⟨hgranted, hafter⟩ := Prod.mk.inj hclaim
      obtain ⟨entry, hentry, -⟩ := exists_of_map_eq_ok hgranted
      exact ⟨entry, Prod.ext hentry hafter⟩

/-- A page whose route belongs to another file is rejected, and the route stays where it is. -/
theorem rejected_page_leaves_route :
    let taken : Route.Registry := { entries := [⟨"/a", "a.mtm"⟩] }
    let outcome := source {} {} taken "b.mtm"
      "---\nroute: /a\ncompileJsMode: app.js\n---\n<template>x</template>"
    outcome.result = .error (.rejected (.routeTaken "/a" "a.mtm" "b.mtm")) ∧
      outcome.registry = taken :=
  ⟨rfl, (rejected_page_claims_nothing _ _ _ _ _).1 _ rfl⟩

end Compile

/-! ## The names of artifacts -/

/-- Whether the artifacts of a page have names as they should: the document one without slashes that
ends in `.html`, and a script file one that ends in `.js`. -/
structure Compiled.Named (page : Compiled) : Prop where
  document : ∃ front : Text, '/' ∉ front ∧ page.outputName = front ++ ".html"
  script : ∀ name, page.externalFile? = some name → (".js" : Text) <:+ name

theorem Document.exists_front_fileName (route : Option Text) :
    ∃ front : Text, '/' ∉ front ∧ fileName route = front ++ ".html" := by
  unfold fileName
  split
  · exact ⟨"index".toList, by simp, by rfl⟩
  · exact ⟨"index".toList, by simp, by rfl⟩
  · exact ⟨"index".toList, by simp, by rfl⟩
  · next path _ _ =>
    refine ⟨(Text.trimChar '/' path).map fun c ↦ if c = '/' then '-' else c, fun hslash ↦ ?_,
      by rfl⟩
    obtain ⟨c, -, hc⟩ := List.mem_map.mp hslash
    split_ifs at hc with hc'
    · exact absurd hc (by decide)
    · exact hc' hc

theorem Compile.finish_eq_ok {options : CompileOptions} {tree : FileTree}
    {tokens : List Source.Token} {warnings : List Diagnostic} {c : Component} {mode : ScriptMode}
    {page : Compiled} (h : (finish options tree tokens warnings c mode).1 = .ok page) :
    page.outputName = Document.fileName c.route? ∧ page.mode = mode ∧ page.component = c ∧
      ∃ known, page.script = Script.program c known options.withLibrary page.template := by
  rw [finish] at h
  split at h
  · cases h
  · next known _ _ =>
    simp only [generate, Component.generate] at h
    split at h
    · cases h
    · next hgenerated =>
      obtain rfl := Except.ok.inj h
      split at hgenerated
      · cases hgenerated
      · obtain rfl := Except.ok.inj hgenerated
        exact ⟨rfl, rfl, rfl, known, rfl⟩

/-- A program begins with its library, if it carries one, and goes on with the metadata. -/
theorem Script.exists_program_eq (c : Component) (known : List Definition) (withLibrary : Bool)
    (lowered : Lowered) : ∃ rest, program c known withLibrary lowered =
      (if withLibrary then Text.unlines (libraryLines ++ [[]]) ++ ['\n'] else []) ++
        (Text.unlines (metadataLines c) ++ '\n' :: rest) := by
  have hmore : pageLines c known lowered ++ startLines c ≠ [] :=
    List.append_ne_nil_of_right_ne_nil _ (List.cons_ne_nil _ _)
  have hmetadata : metadataLines c ≠ [] := List.cons_ne_nil _ _
  have hlines : metadataLines c ++ (pageLines c known lowered ++ startLines c) ≠ [] :=
    List.append_ne_nil_of_left_ne_nil hmetadata _
  refine ⟨Text.unlines (pageLines c known lowered ++ startLines c), ?_⟩
  rw [← Text.unlines_append hmetadata hmore, program, List.append_assoc, List.append_assoc]
  cases withLibrary with
  | false => rfl
  | true =>
    have hlibrary : libraryLines ++ [[]] ≠ [] :=
      List.append_ne_nil_of_right_ne_nil _ (List.cons_ne_nil _ _)
    simp only [if_true]
    rw [Text.unlines_append hlibrary hlines, List.append_assoc, List.singleton_append]

/-- Whether a page came of compiling a source. -/
def Compiled.OfSource (options : CompileOptions) (page : Compiled) : Prop :=
  ∃ tree registry file text, (Compile.source options tree registry file text).result = .ok page

namespace Compiled.OfSource

variable {options : CompileOptions} {page : Compiled}

theorem finish (h : page.OfSource options) : ∃ mode,
    (mode = .inline ∨ mode = .external page.component.name ∨
      ∃ requested, Text.endsWith requested ".js" = true ∧
        mode = { kind := .custom, file := some requested }) ∧
    page.outputName = Document.fileName page.component.route? ∧ page.mode = mode ∧
      ∃ known, page.script =
        Script.program page.component known options.withLibrary page.template := by
  obtain ⟨tree, registry, file, text, h⟩ := h
  rcases Compile.source_cases options tree registry file text with ⟨-, e, herror⟩ |
    ⟨c, notes, mode, tokens, warnings, -, -, -, hmode, hfinish⟩
  · rw [h] at herror
    cases herror
  · obtain ⟨hdocument, hpage, rfl, hscript⟩ := Compile.finish_eq_ok (hfinish.symm.trans h)
    refine ⟨mode, ?_, hdocument, hpage, hscript⟩
    rcases ScriptMode.choose_eq_ok hmode with hinline | hexternal | ⟨requested, -, hcustom⟩
    · exact .inl hinline
    · exact .inr (.inl hexternal)
    · exact .inr (.inr ⟨requested, hcustom⟩)

theorem named (h : page.OfSource options) : page.Named := by
  obtain ⟨mode, hmode, hdocument, hpage, -⟩ := h.finish
  refine ⟨hdocument ▸ Document.exists_front_fileName _, fun name hname ↦ ?_⟩
  rw [externalFile?, hpage] at hname
  rcases hmode with rfl | rfl | ⟨requested, hends, rfl⟩
  · cases hname
  · obtain rfl := Option.some.inj hname
    exact List.suffix_append _ _
  · obtain rfl := Option.some.inj hname
    exact Text.endsWith_iff.mp hends

/-- The program of a page tells its metadata: where two of them differ, the programs do. -/
theorem script_ne_of_metadata {other : Compiled} (h : page.OfSource options)
    (h' : other.OfSource options) {place : Nat} {c c' : Char} (hne : c ≠ c')
    (hc : (Text.unlines (Script.metadataLines page.component))[place]? = some c)
    (hc' : (Text.unlines (Script.metadataLines other.component))[place]? = some c') :
    page.script ≠ other.script := by
  intro heq
  obtain ⟨-, -, -, -, known, hscript⟩ := h.finish
  obtain ⟨-, -, -, -, known', hscript'⟩ := h'.finish
  obtain ⟨rest, hrest⟩ := Script.exists_program_eq page.component known options.withLibrary
    page.template
  obtain ⟨rest', hrest'⟩ := Script.exists_program_eq other.component known' options.withLibrary
    other.template
  rw [hscript, hscript', hrest, hrest'] at heq
  have hplace := congrArg (·[place]?) (List.append_cancel_left heq)
  rw [List.getElem?_append_left (List.getElem?_eq_some_iff.mp hc).1, hc,
    List.getElem?_append_left (List.getElem?_eq_some_iff.mp hc').1, hc'] at hplace
  exact hne (Option.some.inj hplace)

end Compiled.OfSource

end PageCompiler
