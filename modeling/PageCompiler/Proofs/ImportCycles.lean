import Mathlib.Data.List.Chain
import Mathlib.Data.List.Nodup
import Mathlib.Data.List.Perm.Subperm
import Mathlib.Data.List.TakeWhile
import Mathlib.Logic.Relation
import PageCompiler.Build.Graph
import PageCompiler.Proofs.OrderedMaps

/-!
# Dropping import cycles

A build can only order files whose imports have no cycle. Where there is one, the imports among its
files are dropped, and the search starts over on what is left. This file says what that comes to:
the graph that is ordered in the end has no cycle, and every import that is on no cycle of the graph
one began with is still there.

## The search

A closed chain that the search reports is one because the walk is a chain all along. That there is
none when it reports nothing is the invariant of depth-first search: every file that was seen and is
not on the walk is *settled*, no chain of importers goes up from it for ever (`Acc`). A file is
settled once all its importers are.

## The rounds

Which of several cycles is found first is an accident of the order in which files are visited. So
the rounds are told as a relation that leaves the choice open (`Untangles`), and the facts about
them hold for every choice. An import goes only when both its ends are on one closed chain of the
graph of that round, and all files of a closed chain lead to each other; later graphs have fewer
imports, so what leads from one file to another in a later round did so from the beginning.
-/

namespace PageCompiler

namespace ImportGraph

open Relation

variable {g : ImportGraph}

/-! ## Imports and chains -/

/-- Whether a file imports another. -/
def Uses (g : ImportGraph) (importer file : Text) : Prop := file ∈ g.imports importer

/-- No file leads back to itself by way of imports. -/
def Acyclic (g : ImportGraph) : Prop := ∀ file, ¬ TransGen g.Uses file file

/-- A closed chain of imports: every file is imported by the next one, and the last file is the
first. -/
structure ClosedChain (g : ImportGraph) (chain : List Text) : Prop where
  linked : chain.IsChain fun file importer ↦ g.Uses importer file
  closed : chain.head? = chain.getLast?
  proper : 2 ≤ chain.length

/-- Whether an import is on a cycle: some closed chain goes along it. -/
def OnCycle (g : ImportGraph) (importer file : Text) : Prop :=
  ∃ chain, g.ClosedChain chain ∧ [file, importer] <:+: chain

theorem mem_of_uses {importer file : Text} (h : g.Uses importer file) :
    ∃ used, (importer, used) ∈ g ∧ file ∈ used := by
  rw [Uses, imports] at h
  cases hget : OrderedMap.get? g importer with
  | none =>
    rw [hget] at h
    exact absurd h List.not_mem_nil
  | some used =>
    rw [hget] at h
    exact ⟨used, OrderedMap.mem_of_get? hget, h⟩

theorem mem_keys_of_uses {importer file : Text} (h : g.Uses importer file) :
    importer ∈ OrderedMap.keys g := by
  obtain ⟨used, hmem, -⟩ := mem_of_uses h
  exact OrderedMap.mem_keys.mpr ⟨used, hmem⟩

theorem imports_of_mem (hnodup : (OrderedMap.keys g).Nodup) {file : Text} {used : List Text}
    (h : (file, used) ∈ g) : g.imports file = used := by
  rw [imports, OrderedMap.get?_of_mem hnodup h, Option.getD_some]

theorem mem_importers (hnodup : (OrderedMap.keys g).Nodup) {importer file : Text} :
    importer ∈ g.importers file ↔ g.Uses importer file := by
  constructor
  · intro h
    obtain ⟨⟨_, used⟩, hentry, rfl⟩ := List.mem_map.mp h
    obtain ⟨hmem, hused⟩ := List.mem_filter.mp hentry
    rw [Uses, imports_of_mem hnodup hmem]
    exact of_decide_eq_true hused
  · intro h
    obtain ⟨used, hmem, hused⟩ := mem_of_uses h
    exact List.mem_map.mpr ⟨(importer, used), List.mem_filter.mpr ⟨hmem, decide_eq_true hused⟩, rfl⟩

theorem mem_files (hnodup : (OrderedMap.keys g).Nodup) {file : Text} :
    file ∈ g.files ↔ file ∈ OrderedMap.keys g ∨ ∃ importer, g.Uses importer file := by
  rw [files, mem_distinct, List.mem_flatMap]
  constructor
  · rintro ⟨⟨importer, used⟩, hmem, hfile⟩
    rcases List.mem_cons.mp hfile with rfl | hfile
    · exact .inl (OrderedMap.mem_keys.mpr ⟨used, hmem⟩)
    · refine .inr ⟨importer, ?_⟩
      rw [Uses, imports_of_mem hnodup hmem]
      exact hfile
  · rintro (hkey | ⟨importer, huses⟩)
    · obtain ⟨used, hmem⟩ := OrderedMap.mem_keys.mp hkey
      exact ⟨(file, used), hmem, List.mem_cons_self⟩
    · obtain ⟨used, hmem, hfile⟩ := mem_of_uses huses
      exact ⟨(importer, used), hmem, List.mem_cons_of_mem _ hfile⟩

namespace ClosedChain

variable {chain : List Text}

theorem exists_cons_cons (h : g.ClosedChain chain) :
    ∃ first second rest, chain = first :: second :: rest ∧ g.Uses second first := by
  have hproper := h.proper
  match chain, h with
  | [], _ => simp at hproper
  | [_], _ => simp at hproper
  | first :: second :: rest, h =>
    exact ⟨first, second, rest, rfl, (List.isChain_cons_cons.mp h.linked).1⟩

/-- The files of a closed chain lead to each other. -/
theorem connected (h : g.ClosedChain chain) {file other : Text} (hfile : file ∈ chain)
    (hother : other ∈ chain) : ReflTransGen g.Uses file other := by
  obtain ⟨first, second, rest, rfl, -⟩ := h.exists_cons_cons
  -- Along the chain every file is led to by its successors, so all of them lead to the first file,
  -- and the last file leads to all of them; but these two are one.
  have hdown : ∀ f ∈ first :: second :: rest, ReflTransGen g.Uses f first := by
    refine h.linked.induction (fun f ↦ ReflTransGen g.Uses f first) _ ?_ ?_
    · exact fun _ _ huses hx ↦ .head huses hx
    · exact fun _ ↦ .refl
  have hup : ∀ f ∈ first :: second :: rest, ReflTransGen g.Uses first f := by
    refine h.linked.backwards_induction (fun f ↦ ReflTransGen g.Uses first f) _ ?_ ?_
    · exact fun _ _ huses hy ↦ .tail hy huses
    · intro hne
      have hlast := h.closed
      rw [List.head?_cons, List.getLast?_eq_some_getLast hne, Option.some.injEq] at hlast
      rw [← hlast]
  exact (hdown file hfile).trans (hup other hother)

theorem transGen_head (h : g.ClosedChain chain) : ∃ file, TransGen g.Uses file file := by
  obtain ⟨first, second, rest, rfl, huses⟩ := h.exists_cons_cons
  exact ⟨second, .head' huses (h.connected (by simp) (by simp))⟩

theorem mem_keys (h : g.ClosedChain chain) {file : Text} (hfile : file ∈ chain) :
    file ∈ OrderedMap.keys g := by
  obtain ⟨first, second, rest, rfl, huses⟩ := h.exists_cons_cons
  -- A file of the chain leads to another one, and so it imports something.
  have hlead : TransGen g.Uses file first :=
    .trans_right (h.connected hfile (by simp)) (.single huses)
  obtain ⟨next, hnext, -⟩ := TransGen.head'_iff.mp hlead
  exact mem_keys_of_uses hnext

end ClosedChain

theorem onCycle_of_reflTransGen {importer file : Text} (huses : g.Uses importer file)
    (hback : ReflTransGen g.Uses file importer) : g.OnCycle importer file := by
  have hswap : ReflTransGen (Function.swap g.Uses) importer file := reflTransGen_swap.mpr hback
  obtain ⟨rest, hchain, hlast⟩ := List.exists_isChain_cons_of_relationReflTransGen hswap
  refine ⟨file :: importer :: rest, ⟨?_, ?_, by simp⟩, [], rest, rfl⟩
  · exact List.isChain_cons_cons.mpr ⟨huses, hchain⟩
  · rw [List.head?_cons, List.getLast?_cons_cons,
      List.getLast?_eq_some_getLast (List.cons_ne_nil _ _), hlast]

/-! ## The search for a cycle -/

/-- Whether no chain of importers goes up from a file for ever. -/
def Settled (g : ImportGraph) (file : Text) : Prop := Acc g.Uses file

/-- Reported closed walks are closed chains, if visiting a file that continues the walk reports no
others. -/
theorem closedChain_of_visitAll {see : List Text → Text → Search} {chain : List Text}
    {todo : List Text}
    (hsee : ∀ seen, ∀ file ∈ todo, see seen file = .error chain → g.ClosedChain chain)
    {seen : List Text} (h : visitAll see seen todo = .error chain) : g.ClosedChain chain := by
  induction todo generalizing seen with
  | nil => exact nomatch h
  | cons file rest ih =>
    rw [visitAll] at h
    cases hfile : see seen file with
    | error found =>
      rw [hfile] at h
      obtain rfl : found = chain := Except.error.inj h
      exact hsee seen file List.mem_cons_self hfile
    | ok more =>
      rw [hfile] at h
      exact ih (fun seen f hf ↦ hsee seen f (List.mem_cons_of_mem _ hf)) h

/-- The walk up to a file that is on it already closes a chain. -/
theorem closedChain_of_walk {walk : List Text} {file : Text}
    (hwalk : (walk ++ [file]).IsChain fun file importer ↦ g.Uses importer file)
    (hmem : file ∈ walk) : g.ClosedChain (walk.dropWhile (· != file) ++ [file]) := by
  have hne : walk.dropWhile (· != file) ≠ [] := by
    rw [ne_eq, List.dropWhile_eq_nil_iff]
    exact fun hall ↦ absurd (hall file hmem) (by simp)
  have hhead : (walk.dropWhile (· != file)).head hne = file := by
    simpa using List.head_dropWhile_not (fun f ↦ f != file) hne
  refine ⟨hwalk.suffix ?_, ?_, ?_⟩
  · exact (List.suffix_append_inj_of_length_eq rfl).mpr ⟨List.dropWhile_suffix _, rfl⟩
  · rw [List.getLast?_concat, List.head?_append_of_ne_nil _ hne, List.head?_eq_some_head hne, hhead]
  · have := List.length_pos_iff.mpr hne
    rw [List.length_append, List.length_singleton]
    omega

theorem closedChain_of_visit (hnodup : (OrderedMap.keys g).Nodup) {depth : Nat}
    {walk seen chain : List Text} {file : Text}
    (hwalk : (walk ++ [file]).IsChain fun file importer ↦ g.Uses importer file)
    (h : visit g depth walk seen file = .error chain) : g.ClosedChain chain := by
  induction depth generalizing walk seen file with
  | zero => exact nomatch h
  | succ depth ih =>
    rw [visit] at h
    split_ifs at h with hseen hmem
    · obtain rfl := Except.error.inj h
      exact closedChain_of_walk hwalk hmem
    · refine closedChain_of_visitAll (fun seen importer himporter hvisit ↦ ?_) h
      refine ih (hwalk.append (List.isChain_singleton importer) ?_) hvisit
      intro last hlast next hnext
      rw [List.getLast?_concat, Option.mem_some_iff] at hlast
      rw [List.head?_cons, Option.mem_some_iff] at hnext
      rw [← hlast, ← hnext]
      exact (mem_importers hnodup).mp himporter

/-- What the search knows when it is at the end of a walk: the files on the walk were seen, and all
other files that were seen are settled. -/
structure Traversed (g : ImportGraph) (walk seen : List Text) : Prop where
  along : ∀ file ∈ walk, file ∈ seen
  settled : ∀ file ∈ seen, file ∉ walk → g.Settled file

theorem traversed_visitAll {see : List Text → Text → Search} {walk todo : List Text}
    (hsee : ∀ seen more, ∀ file ∈ todo, g.Traversed walk seen → see seen file = .ok more →
      g.Traversed walk more ∧ g.Settled file)
    {seen last : List Text} (hseen : g.Traversed walk seen)
    (h : visitAll see seen todo = .ok last) :
    g.Traversed walk last ∧ ∀ file ∈ todo, g.Settled file := by
  induction todo generalizing seen with
  | nil =>
    obtain rfl : seen = last := Except.ok.inj h
    exact ⟨hseen, fun _ hfile ↦ absurd hfile List.not_mem_nil⟩
  | cons file rest ih =>
    rw [visitAll] at h
    cases hfile : see seen file with
    | error chain =>
      rw [hfile] at h
      exact nomatch h
    | ok more =>
      rw [hfile] at h
      obtain ⟨hmore, hsettled⟩ := hsee seen more file List.mem_cons_self hseen hfile
      obtain ⟨hlast, hrest⟩ :=
        ih (fun seen more f hf ↦ hsee seen more f (List.mem_cons_of_mem _ hf)) hmore h
      exact ⟨hlast, List.forall_mem_cons.mpr ⟨hsettled, hrest⟩⟩

theorem traversed_visit (hnodup : (OrderedMap.keys g).Nodup) {depth : Nat}
    {walk seen more : List Text} {file : Text} (hdepth : g.files.length < depth + walk.length)
    (hwalk : walk.Nodup) (hfiles : ∀ f ∈ walk, f ∈ g.files) (hfile : file ∈ g.files)
    (hseen : g.Traversed walk seen) (h : visit g depth walk seen file = .ok more) :
    g.Traversed walk more ∧ g.Settled file := by
  induction depth generalizing walk seen more file with
  | zero =>
    -- The walk does not repeat a file, so it is no longer than the list of files.
    have := (List.subperm_of_subset hwalk hfiles).length_le
    omega
  | succ depth ih =>
    rw [visit] at h
    split_ifs at h with hold hmem
    · obtain rfl := Except.ok.inj h
      exact ⟨hseen, hseen.settled file hold hmem⟩
    · have hnew : file ∉ walk := fun hmem ↦ hold (hseen.along file hmem)
      have hstart : g.Traversed (walk ++ [file]) (seen ++ [file]) := by
        refine ⟨fun f hf ↦ ?_, fun f hf hoff ↦ ?_⟩
        · rw [List.mem_append] at hf ⊢
          exact hf.imp_left (hseen.along f)
        · rw [List.mem_append, not_or] at hoff
          exact hseen.settled f ((List.mem_append.mp hf).resolve_right hoff.2) hoff.1
      have hlonger : (walk ++ [file]).Nodup := by
        rw [← List.concat_eq_append, List.nodup_concat]
        exact ⟨hnew, hwalk⟩
      have hwithin : ∀ f ∈ walk ++ [file], f ∈ g.files := by
        intro f hf
        rcases List.mem_append.mp hf with hf | hf
        · exact hfiles f hf
        · rw [List.mem_singleton.mp hf]
          exact hfile
      have hvisit : ∀ seen more, ∀ importer ∈ g.importers file,
          g.Traversed (walk ++ [file]) seen →
          visit g depth (walk ++ [file]) seen importer = .ok more →
          g.Traversed (walk ++ [file]) more ∧ g.Settled importer := by
        intro seen more importer himporter hseen hvisit
        refine ih ?_ hlonger hwithin ?_ hseen hvisit
        · rw [List.length_append, List.length_singleton]
          omega
        · exact (mem_files hnodup).mpr
            (.inl (mem_keys_of_uses ((mem_importers hnodup).mp himporter)))
      obtain ⟨hmore, himporters⟩ := traversed_visitAll hvisit hstart h
      have hsettled : g.Settled file :=
        Acc.intro file fun importer huses ↦ himporters importer ((mem_importers hnodup).mpr huses)
      refine ⟨⟨fun f hf ↦ hmore.along f (List.mem_append_left _ hf), fun f hf hoff ↦ ?_⟩, hsettled⟩
      by_cases heq : f = file
      · exact heq ▸ hsettled
      · exact hmore.settled f hf (by simp [hoff, heq])

theorem Settled.not_transGen {file : Text} (h : g.Settled file) : ¬ TransGen g.Uses file file := by
  induction h with
  | intro file _ ih =>
    intro hcycle
    obtain ⟨importer, hpath, huses⟩ := TransGen.tail'_iff.mp hcycle
    exact ih importer huses (.head' huses hpath)

theorem closedChain_of_cycle? (hnodup : (OrderedMap.keys g).Nodup) {chain : List Text}
    (h : g.cycle? = some chain) : g.ClosedChain chain := by
  rw [cycle?] at h
  split at h
  · next found hfound =>
    obtain rfl := Option.some.inj h
    exact closedChain_of_visitAll
      (fun seen file _ hvisit ↦ closedChain_of_visit hnodup (List.isChain_singleton file) hvisit)
      hfound
  · exact nomatch h

/-- **The search finds a cycle exactly when there is one.** -/
theorem cycle?_eq_none_iff (hnodup : (OrderedMap.keys g).Nodup) : g.cycle? = none ↔ g.Acyclic := by
  constructor
  · intro h
    rw [cycle?] at h
    split at h
    · exact nomatch h
    · next seen hseen =>
      have hstart : g.Traversed [] [] :=
        ⟨fun _ hf ↦ absurd hf List.not_mem_nil, fun _ hf ↦ absurd hf List.not_mem_nil⟩
      obtain ⟨-, hsettled⟩ := traversed_visitAll
        (fun seen more file hfile hseen hvisit ↦ traversed_visit hnodup (by simp) List.nodup_nil
          (fun _ hf ↦ absurd hf List.not_mem_nil) hfile hseen hvisit) hstart hseen
      intro file hcycle
      obtain ⟨next, hnext, -⟩ := TransGen.head'_iff.mp hcycle
      have hfile : file ∈ g.files := (mem_files hnodup).mpr (.inl (mem_keys_of_uses hnext))
      exact (hsettled file hfile).not_transGen hcycle
  · intro hacyclic
    cases h : g.cycle? with
    | none => rfl
    | some chain =>
      obtain ⟨file, hcycle⟩ := (closedChain_of_cycle? hnodup h).transGen_head
      exact absurd hcycle (hacyclic file)

/-! ## One round -/

theorem keys_without (g : ImportGraph) (members : List Text) :
    OrderedMap.keys (g.without members) = OrderedMap.keys g := by
  rw [without, OrderedMap.keys, OrderedMap.keys, List.map_map]
  rfl

theorem imports_without (g : ImportGraph) (members : List Text) (file : Text) :
    (g.without members).imports file =
      if file ∈ members then (g.imports file).filter (· ∉ members) else g.imports file := by
  rw [imports, imports]
  induction g with
  | nil =>
    split_ifs <;> rfl
  | cons entry rest ih =>
    obtain ⟨f, used⟩ := entry
    rw [without, List.map_cons, OrderedMap.get?_cons, OrderedMap.get?_cons]
    by_cases hf : file = f
    · rw [if_pos hf, if_pos hf, hf]
      split_ifs <;> rfl
    · rw [if_neg hf, if_neg hf]
      exact ih

theorem uses_without {members : List Text} {importer file : Text} :
    (g.without members).Uses importer file ↔
      g.Uses importer file ∧ ¬ (importer ∈ members ∧ file ∈ members) := by
  rw [Uses, Uses, imports_without]
  split_ifs with h
  · simp [h]
  · simp [h]

theorem size_cons (file : Text) (used : List Text) (g : ImportGraph) :
    size ((file, used) :: g) = used.length + g.size := by
  rw [size, List.flatMap_cons, List.length_append, size]

theorem size_without_le (g : ImportGraph) (members : List Text) :
    (g.without members).size ≤ g.size := by
  induction g with
  | nil => exact Nat.le_refl _
  | cons entry rest ih =>
    obtain ⟨file, used⟩ := entry
    have hkept : (if file ∈ members then used.filter (· ∉ members) else used).length ≤
        used.length := by
      split_ifs
      · exact List.length_filter_le _ _
      · exact Nat.le_refl _
    rw [without, List.map_cons, ← without, size_cons, size_cons]
    omega

/-- Every round drops at least one import. -/
theorem size_without_lt {chain : List Text} (h : g.ClosedChain chain) :
    (g.without chain).size < g.size := by
  obtain ⟨first, second, rest, rfl, huses⟩ := h.exists_cons_cons
  obtain ⟨used, hmem, hused⟩ := mem_of_uses huses
  obtain ⟨front, back, rfl⟩ := List.append_of_mem hmem
  have hdropped : (used.filter (· ∉ first :: second :: rest)).length < used.length :=
    List.length_filter_lt_length_iff_exists.mpr ⟨first, hused, by simp⟩
  have hsplit : ∀ g g' : ImportGraph, size (g ++ g') = g.size + g'.size := fun g g' ↦ by
    rw [size, List.flatMap_append, List.length_append, size, size]
  have hfront := size_without_le front (first :: second :: rest)
  have hback := size_without_le back (first :: second :: rest)
  rw [without] at hfront hback ⊢
  rw [List.map_append, List.map_cons, hsplit, hsplit, size_cons, size_cons, if_pos (by simp)]
  omega

/-! ## All rounds -/

/-- Whether one graph is another one less some imports that are on cycles of it. -/
structure Spares (g h : ImportGraph) : Prop where
  keys : OrderedMap.keys h = OrderedMap.keys g
  files : ∀ file, file ∈ h.files ↔ file ∈ g.files
  fewer : ∀ importer file, h.Uses importer file → g.Uses importer file
  spared : ∀ importer file, g.Uses importer file → ¬ g.OnCycle importer file →
    h.Uses importer file

theorem ClosedChain.mono {h : ImportGraph}
    (hsub : ∀ importer file, h.Uses importer file → g.Uses importer file) {chain : List Text}
    (hchain : h.ClosedChain chain) : g.ClosedChain chain :=
  ⟨hchain.linked.imp fun file importer ↦ hsub importer file, hchain.closed, hchain.proper⟩

theorem Spares.refl (g : ImportGraph) : g.Spares g :=
  ⟨rfl, fun _ ↦ Iff.rfl, fun _ _ ↦ id, fun _ _ huses _ ↦ huses⟩

theorem Spares.trans {h k : ImportGraph} (hgh : g.Spares h) (hhk : h.Spares k) : g.Spares k where
  keys := hhk.keys.trans hgh.keys
  files file := (hhk.files file).trans (hgh.files file)
  fewer importer file huses := hgh.fewer importer file (hhk.fewer importer file huses)
  spared importer file huses hfree := by
    refine hhk.spared importer file (hgh.spared importer file huses hfree) ?_
    rintro ⟨chain, hchain, hpair⟩
    exact hfree ⟨chain, hchain.mono hgh.fewer, hpair⟩

theorem spares_without (hnodup : (OrderedMap.keys g).Nodup) {chain : List Text}
    (h : g.ClosedChain chain) : g.Spares (g.without chain) where
  keys := keys_without g chain
  files file := by
    rw [mem_files hnodup, mem_files (by rwa [keys_without]), keys_without]
    constructor
    · exact Or.imp_right fun ⟨importer, huses⟩ ↦ ⟨importer, (uses_without.mp huses).1⟩
    · rintro (hkey | ⟨importer, huses⟩)
      · exact .inl hkey
      · -- A file that loses its last import is on the chain, and imports something itself.
        by_cases hboth : importer ∈ chain ∧ file ∈ chain
        · exact .inl (h.mem_keys hboth.2)
        · exact .inr ⟨importer, uses_without.mpr ⟨huses, hboth⟩⟩
  fewer _ _ huses := (uses_without.mp huses).1
  spared importer file huses hfree := by
    refine uses_without.mpr ⟨huses, ?_⟩
    rintro ⟨himporter, hfile⟩
    exact hfree (onCycle_of_reflTransGen huses (h.connected hfile himporter))

/-- The rounds of dropping cycles, whichever closed chain is found in each: `g.Untangles chains h`
says that the chains can be found one after the other, and that `h` is left. -/
inductive Untangles : ImportGraph → List (List Text) → ImportGraph → Prop
  | done {g : ImportGraph} : g.Acyclic → Untangles g [] g
  | drop {g h : ImportGraph} {chain : List Text} {chains : List (List Text)} :
    g.ClosedChain chain → Untangles (g.without chain) chains h → Untangles g (chain :: chains) h

namespace Untangles

variable {h : ImportGraph} {chains : List (List Text)}

theorem acyclic (hrun : g.Untangles chains h) : h.Acyclic := by
  induction hrun with
  | done hacyclic => exact hacyclic
  | drop _ _ ih => exact ih

theorem length_le (hrun : g.Untangles chains h) : chains.length ≤ g.size := by
  induction hrun with
  | done => exact Nat.zero_le _
  | drop hchain _ ih =>
    have := size_without_lt hchain
    rw [List.length_cons]
    omega

theorem spares (hnodup : (OrderedMap.keys g).Nodup) (hrun : g.Untangles chains h) :
    g.Spares h := by
  induction hrun with
  | done => exact .refl _
  | drop hchain _ ih => exact (spares_without hnodup hchain).trans (ih (by rwa [keys_without]))

theorem closedChain (hrun : g.Untangles chains h) : ∀ chain ∈ chains, g.ClosedChain chain := by
  induction hrun with
  | done => exact fun _ hchain ↦ absurd hchain List.not_mem_nil
  | drop hchain _ ih =>
    refine List.forall_mem_cons.mpr ⟨hchain, fun chain hmem ↦ ?_⟩
    exact (ih chain hmem).mono fun _ _ huses ↦ (uses_without.mp huses).1

theorem eq_nil_iff (hrun : g.Untangles chains h) : chains = [] ↔ g.Acyclic := by
  cases hrun with
  | done hacyclic => exact iff_of_true rfl hacyclic
  | drop hchain _ =>
    obtain ⟨file, hcycle⟩ := hchain.transGen_head
    exact iff_of_false (List.cons_ne_nil _ _) fun hacyclic ↦ hacyclic file hcycle

end Untangles

/-- With one round for every import, the rounds come to an end by themselves. -/
theorem untangles_dropCycles {fuel : Nat} (hnodup : (OrderedMap.keys g).Nodup)
    (hfuel : g.size ≤ fuel) : g.Untangles (dropCycles fuel g).2 (dropCycles fuel g).1 := by
  induction fuel generalizing g with
  | zero =>
    refine .done ?_
    rw [← cycle?_eq_none_iff hnodup]
    cases hfound : g.cycle? with
    | none => rfl
    | some chain =>
      have := size_without_lt (closedChain_of_cycle? hnodup hfound)
      omega
  | succ fuel ih =>
    rw [dropCycles]
    cases hfound : g.cycle? with
    | none => exact .done ((cycle?_eq_none_iff hnodup).mp hfound)
    | some chain =>
      have hchain := closedChain_of_cycle? hnodup hfound
      have := size_without_lt hchain
      exact .drop hchain (ih (by rwa [keys_without]) (by omega))

theorem untangles_untangle (hnodup : (OrderedMap.keys g).Nodup) :
    g.Untangles g.untangle.2 g.untangle.1 := untangles_dropCycles hnodup (Nat.le_refl _)

/-- No choice of closed chains keeps the rounds going for ever. -/
theorem rounds_end (rounds : Nat → ImportGraph)
    (hround : ∀ n, ∃ chain, (rounds n).ClosedChain chain ∧
      rounds (n + 1) = (rounds n).without chain) : False := by
  have hsize : ∀ n, (rounds n).size + n ≤ (rounds 0).size := by
    intro n
    induction n with
    | zero => exact Nat.le_refl _
    | succ n ih =>
      obtain ⟨chain, hchain, hnext⟩ := hround n
      have := size_without_lt hchain
      rw [hnext]
      omega
  have := hsize ((rounds 0).size + 1)
  omega

/-- **Only cycles are dropped.** Whichever closed chains are found, the rounds come to an end, and
the graph that is left has the files of the first one, none but its imports, no cycle, and all the
imports that were on no cycle. There is a warning exactly when there was a cycle, and every warning
names a closed chain of the first graph. The rounds that are run are such rounds. -/
theorem untangle_drops_only_cycles (g : ImportGraph) (hnodup : (OrderedMap.keys g).Nodup) :
    g.Untangles g.untangle.2 g.untangle.1 ∧
    (¬ ∃ rounds : Nat → ImportGraph, rounds 0 = g ∧ ∀ n, ∃ chain,
      (rounds n).ClosedChain chain ∧ rounds (n + 1) = (rounds n).without chain) ∧
    ∀ chains h, g.Untangles chains h →
      chains.length ≤ g.size ∧
      OrderedMap.keys h = OrderedMap.keys g ∧
      (∀ file, file ∈ h.files ↔ file ∈ g.files) ∧
      (∀ importer file, h.Uses importer file → g.Uses importer file) ∧
      h.Acyclic ∧
      (∀ importer file, g.Uses importer file → ¬ g.OnCycle importer file →
        h.Uses importer file) ∧
      (chains.map cycleWarning ≠ [] ↔ ¬ g.Acyclic) ∧
      ∀ warning ∈ chains.map cycleWarning, ∃ chain, g.ClosedChain chain ∧
        warning.message = "import cycle: " ++ Text.join " -> " chain := by
  refine ⟨untangles_untangle hnodup, ?_, fun chains h hrun ↦ ?_⟩
  · rintro ⟨rounds, -, hround⟩
    exact rounds_end rounds hround
  · have hspares := hrun.spares hnodup
    refine ⟨hrun.length_le, hspares.keys, hspares.files, hspares.fewer, hrun.acyclic,
      hspares.spared, ?_, fun warning hwarning ↦ ?_⟩
    · rw [ne_eq, List.map_eq_nil_iff, hrun.eq_nil_iff]
    · obtain ⟨chain, hchain, rfl⟩ := List.mem_map.mp hwarning
      exact ⟨chain, hrun.closedChain chain hchain, rfl⟩

/-- Two files that import each other, and a third one that imports one of them. -/
def mutualImports : ImportGraph := [("a", ["b"]), ("b", ["a"]), ("c", ["a"])]

theorem mutualImports_untangled :
    (OrderedMap.keys mutualImports).Nodup ∧
      ¬ mutualImports.Acyclic ∧ mutualImports.untangle.1.Acyclic ∧
      mutualImports.untangle.1 = ([("a", []), ("b", []), ("c", ["a"])] : ImportGraph) ∧
      ∃ chain, mutualImports.ClosedChain chain ∧
        ("import cycle: a -> b -> a" : Text) = "import cycle: " ++ Text.join " -> " chain := by
  have hnodup : (OrderedMap.keys mutualImports).Nodup := by decide
  obtain ⟨hrun, -, hall⟩ := untangle_drops_only_cycles mutualImports hnodup
  obtain ⟨-, -, -, -, hacyclic, -, hwarned, hnamed⟩ := hall _ _ hrun
  refine ⟨hnodup, hwarned.mp (by decide +kernel), hacyclic, by decide +kernel, ?_⟩
  exact hnamed (cycleWarning ["a", "b", "a"]) (by decide +kernel)

end ImportGraph

end PageCompiler
