import PageCompiler.Proofs.JoinedSources
import PageCompiler.Proofs.PageWarnings

/-!
# Imports, scanned and compiled

A build goes over every source twice: once to find out which files import which, with no import
looked for, and once to compile it, with a locator that is asked for each import while the source is
scanned. The order of the build is that of the first pass and the pages are those of the second, so
both have to see the same imports.

They do, since the locator is asked about events that are there already, and its answer is written
into the token of the import and nowhere else (`Source.AfterLookup`). Where it stops the scan, there
is no page. Where it does not, the tokens stand in pairs with those of a scan without lookup
(`Source.forall₂_of_locate`), blocks that are never closed included, and the imports that the pairs
declare agree in path and line.
-/

namespace PageCompiler

namespace Source

variable {E : Type} {file : Text} {locator : Locator E}

/-- Tokens that come from the same ones, some with no lookup and others with one, stand in pairs. -/
theorem forall₂_of_noLookup {before plain tokens : List Token}
    (hplain : List.Forall₂ (AfterLookup (noLookup : Locator E)) before plain)
    (htokens : List.Forall₂ (AfterLookup locator) before tokens) :
    List.Forall₂ (AfterLookup locator) plain tokens := by
  induction hplain generalizing tokens with
  | nil =>
    cases htokens
    exact .nil
  | cons hfirst _ ih =>
    cases htokens with
    | cons hother hrest =>
      refine .cons ?_ (ih hrest)
      cases hfirst with
      | imported =>
        cases hother with
        | imported hfound => exact .imported hfound
        | other hnone => cases hnone
      | other => exact hother

theorem imports_of_forall₂ {before tokens : List Token}
    (h : List.Forall₂ (AfterLookup locator) before tokens) :
    (tokens.filterMap Token.import?).map (fun i ↦ (i.path, i.line)) =
      (before.filterMap Token.import?).map fun i ↦ (i.path, i.line) := by
  induction h with
  | nil => rfl
  | cons hfirst _ ih =>
    cases hfirst with
    | imported _ => exact congrArg (_ :: ·) ih
    | other hnone => rwa [List.filterMap_cons_none hnone, List.filterMap_cons_none hnone]

end Source

theorem scanImports_eq_map (text : Text) :
    scanImports text =
      ((Source.tokensOf (Source.scan (FrontMatter.extract text).bodyOffset
        (FrontMatter.extract text).body)).filterMap Source.Token.import?).map
          fun i ↦ (i.path, i.line) := by
  rw [List.map_filterMap, scanImports]
  congr 1
  funext t
  obtain ⟨line, declaration⟩ := t
  cases declaration <;> rfl

namespace Compile

theorem imports_of_read {E : Type} {file text : Text} {locator : Source.Locator E} {c : Component}
    (h : (Component.read file locator (FrontMatter.extract text)).component = .ok c) :
    c.imports.map (fun i ↦ (i.path, i.line)) = scanImports text := by
  rw [Component.read] at h
  split at h
  · cases h
  · next tokens htokens =>
    obtain rfl := Except.ok.inj h
    rw [Component.imports_ofTokens, scanImports_eq_map]
    exact Source.imports_of_forall₂ (Source.forall₂_of_locate htokens)

/-- **Scanning and compiling see the same imports.** Whatever the options, the files and the routes
are, the imports of a compiled page have the paths and lines that the scan for dependencies gives.
More generally, any locator that always answers leaves the tokens what they are without lookup, one
by one, but for the file that an import stands for, which is the answer of the locator. -/
theorem imports_of_page_eq_scanImports (file text : Text) :
    (∀ (options : CompileOptions) (tree : FileTree) (registry : Route.Registry) (page : Compiled),
      (source options tree registry file text).result = .ok page →
        page.component.imports.map (fun i ↦ (i.path, i.line)) = scanImports text) ∧
    ∀ (E : Type) (locator : Source.Locator E) (offset : Int) (body : Text),
      (∀ path line, ∃ resolved, (locator path line).found = .ok resolved) →
        ∃ plain tokens,
          (Source.tokenize file offset (Source.noLookup : Source.Locator E) body).tokens =
            .ok plain ∧
          (Source.tokenize file offset locator body).tokens = .ok tokens ∧
          List.Forall₂ (Source.AfterLookup locator) plain tokens := by
  refine ⟨fun options tree registry page h ↦ imports_of_read (warnings_of_source h).1, ?_⟩
  intro E locator offset body hlocator
  obtain ⟨plain, hplain⟩ :=
    Source.exists_tokens_locate_noLookup (E := E) file (Source.scan offset body)
  obtain ⟨tokens, htokens⟩ :=
    Source.exists_tokens_locate hlocator file (Source.scan offset body)
  exact ⟨plain, tokens, hplain, htokens, Source.forall₂_of_noLookup
    (Source.forall₂_of_locate hplain) (Source.forall₂_of_locate htokens)⟩

/-- A page whose template is never closed, and takes the second import with it. -/
def unclosedPage : Text := "import A from \"./a\"\n<template>\nimport B from \"./b\""

/-- The page has its first import, found or not. -/
theorem imports_of_unclosedPage :
    let tree : FileTree := { nodes := [(["a.vue"], .file [])] }
    let options : CompileOptions := { withLibrary := false, resolveImports := true }
    let locator : Source.Locator Empty := fun path _ ↦ { found := .ok (some path) }
    (∃ page, (source options tree {} "p.mtm" unclosedPage).result = .ok page ∧
      page.component.imports = [⟨1, "A", "./a", some "a.vue"⟩] ∧
      page.component.imports.map (fun i ↦ (i.path, i.line)) = scanImports unclosedPage) ∧
    ∃ plain tokens,
      (Source.tokenize "p.mtm" 0 (Source.noLookup : Source.Locator Empty) unclosedPage).tokens =
        .ok plain ∧
      (Source.tokenize "p.mtm" 0 locator unclosedPage).tokens = .ok tokens ∧
      List.Forall₂ (Source.AfterLookup locator) plain tokens := by
  intro tree options locator
  obtain ⟨hpages, hlocators⟩ := imports_of_page_eq_scanImports "p.mtm" unclosedPage
  refine ⟨?_, hlocators Empty locator 0 unclosedPage fun path _ ↦ ⟨some path, rfl⟩⟩
  have himports : (source options tree {} "p.mtm" unclosedPage).result.toOption.any
      (fun page ↦ page.component.imports = [⟨1, "A", "./a", some "a.vue"⟩]) = true := by
    decide +kernel
  rcases hresult : (source options tree {} "p.mtm" unclosedPage).result with e | page
  · rw [hresult] at himports
    cases himports
  · rw [hresult] at himports
    exact ⟨page, rfl, of_decide_eq_true himports, hpages options tree {} page hresult⟩

end Compile

end PageCompiler
