import Mathlib.Data.List.Basic
import Mathlib.Data.List.Find
import Mathlib.Data.List.Induction
import Mathlib.Logic.ExistsUnique
import PageCompiler.Proofs.OrderedMaps
import PageCompiler.Route.Registry

/-!
# Who owns a route

A registry is only ever reached by a row of requests, each of which is granted or refused. This file
tells what such a row comes to without looking at the registry: requests compete for *keys*, the
first well-formed request for a key decides which source owns it, and every later request for that
key is granted exactly when it comes from the same source.

## The invariant

The registry keeps all entries in one list and the entries with parameters in a second one, and it
compares paths in the first and shapes in the second. `Registry.Reflects` says that neither list
knows more than the row of requests does: the second list is the dynamic part of the first, the
first entry under a key is the first request for that key, and all entries under a key have its
source. Granting a request keeps the invariant, and refusing one changes nothing.
-/

namespace PageCompiler

namespace Route

/-! ## Requests and what they compete for -/

/-- A source asks for a route. -/
structure Request where
  /-- The route as written. -/
  path : Text
  /-- The source that asks. -/
  file : Text
  deriving DecidableEq, Repr

/-- What is taken when a route is claimed. -/
inductive Key where
  /-- A path without parameters. -/
  | fixed (path : Text)
  /-- All routes with parameters that have one shape. -/
  | shaped (pattern : Text)
  deriving DecidableEq, Repr

/-- The key of a route: its shape if it has parameters, and the route itself otherwise. -/
def key (path : Text) : Key := if isDynamic path then .shaped (shape path) else .fixed path

theorem key_of_dynamic {path : Text} (h : isDynamic path = true) :
    key path = .shaped (shape path) := if_pos h

theorem key_of_static {path : Text} (h : isDynamic path = false) : key path = .fixed path := by
  rw [key, h, if_neg Bool.false_ne_true]

theorem eq_of_key_eq_of_static {path other : Text} (h : isDynamic path = false)
    (hkey : key other = key path) : other = path := by
  rw [key_of_static h] at hkey
  cases hother : isDynamic other with
  | false =>
    rw [key_of_static hother] at hkey
    exact Key.fixed.inj hkey
  | true =>
    rw [key_of_dynamic hother] at hkey
    exact absurd hkey (by simp)

/-- A route shares its key with one that has parameters when it has parameters too, and the same
shape. -/
theorem key_eq_iff_of_dynamic {path other : Text} (h : isDynamic path = true) :
    key other = key path ↔ isDynamic other = true ∧ shape other = shape path := by
  rw [key_of_dynamic h]
  cases hother : isDynamic other with
  | false => simp [key_of_static hother]
  | true => simp [key_of_dynamic hother]

namespace Request

def entry (q : Request) : Entry := ⟨q.path, q.file⟩

/-- Whether a request is well formed and competes for a key. -/
def asksFor (k : Key) (q : Request) : Bool := decide (problems q.path = [] ∧ key q.path = k)

/-- The refusal of a request whose brackets are not in order. -/
def malformed (q : Request) : Diagnostic where
  cause := .fieldInvalid "route" q.path
    ((problems q.path).map fun problem ↦ "pattern problem: " ++ problem.message)
  file := some q.file

/-- The refusal of a request for a key that an earlier request claimed for another source. -/
def refusal (q first : Request) : Diagnostic :=
  if isDynamic q.path then .routeAmbiguous q.path first.path q.file first.file
  else .routeTaken q.path first.file q.file

end Request

/-- The first well-formed request for a key. -/
def firstFor (qs : List Request) (k : Key) : Option Request := qs.find? (Request.asksFor k)

theorem firstFor_append (qs later : List Request) (k : Key) :
    firstFor (qs ++ later) k = (firstFor qs k).or (firstFor later k) := List.find?_append

/-- A well-formed request is the first one for its key unless an earlier request is. -/
theorem firstFor_singleton (q : Request) (k : Key) :
    firstFor [q] k = if problems q.path = [] ∧ key q.path = k then some q else none := by
  by_cases h : problems q.path = [] ∧ key q.path = k
  · simp [firstFor, Request.asksFor, h]
  · rw [if_neg h]
    simpa [firstFor, Request.asksFor] using h

namespace Registry

/-! ## Serving requests -/

/-- The answer to a request, and the registry after it. -/
def serve (r : Registry) (q : Request) : Except Diagnostic Entry × Registry :=
  r.register q.path q.file

def after (r : Registry) (qs : List Request) : Registry := qs.foldl (fun r q ↦ (r.serve q).2) r

def answers (r : Registry) : List Request → List (Except Diagnostic Entry)
  | [] => []
  | q :: qs => (r.serve q).1 :: answers (r.serve q).2 qs

/-- The paths of the requests in a row that are granted, in order. -/
def grantedPaths (r : Registry) (qs : List Request) : List Text :=
  (r.answers qs).filterMap fun
    | .ok e => some e.path
    | .error _ => none

/-- The keys that are taken. -/
def claimed (r : Registry) : List Key := r.entries.map fun e ↦ key e.path

theorem after_append (r : Registry) (qs later : List Request) :
    r.after (qs ++ later) = (r.after qs).after later := List.foldl_append

theorem after_concat (r : Registry) (qs : List Request) (q : Request) :
    r.after (qs ++ [q]) = ((r.after qs).serve q).2 := by
  rw [after_append]
  rfl

theorem answers_concat (r : Registry) (qs : List Request) (q : Request) :
    r.answers (qs ++ [q]) = r.answers qs ++ [((r.after qs).serve q).1] := by
  induction qs generalizing r with
  | nil => rfl
  | cons first rest ih =>
    rw [List.cons_append, answers, ih, answers, List.cons_append]
    rfl

/-- Everything that serving a request can come to. -/
theorem serve_cases (r : Registry) (q : Request) :
    (∃ d, r.serve q = (.error d, r)) ∨
    (r.get? q.path = some q.entry ∧ r.serve q = (.ok q.entry, r)) ∨
    (r.get? q.path = none ∧ r.serve q = (.ok q.entry, r.add q.entry)) := by
  unfold serve register
  cases hproblems : problems q.path with
  | cons p ps => exact Or.inl ⟨_, rfl⟩
  | nil =>
    cases hget : r.get? q.path with
    | none =>
      cases hrival : r.rival? q.path q.file with
      | none => exact Or.inr (Or.inr ⟨rfl, rfl⟩)
      | some other => exact Or.inl ⟨_, rfl⟩
    | some existing =>
      by_cases hfile : existing.file = q.file
      · have hentry : existing = q.entry := by
          have hpath : existing.path = q.path := by simpa using List.find?_some hget
          rw [Request.entry, ← hpath, ← hfile]
        subst hentry
        exact Or.inr (Or.inl ⟨rfl, if_pos hfile⟩)
      · left
        cases hrival : r.rival? q.path q.file with
        | none => exact ⟨_, if_neg hfile⟩
        | some other => exact ⟨_, if_neg hfile⟩

/-- A refusal changes nothing. -/
theorem registry_of_refused {r : Registry} {path file : Text} {d : Diagnostic}
    (hd : (r.register path file).1 = .error d) : (r.register path file).2 = r := by
  rcases r.serve_cases ⟨path, file⟩ with ⟨e, he⟩ | ⟨-, hok⟩ | ⟨-, hok⟩
  · exact congrArg Prod.snd he
  · exact congrArg Prod.snd hok
  · cases hd.symm.trans (congrArg Prod.fst hok)

theorem serve_malformed (r : Registry) {q : Request} (hproblems : problems q.path ≠ []) :
    r.serve q = (.error q.malformed, r) := by
  unfold serve register Request.malformed
  cases h : problems q.path with
  | nil => exact absurd h hproblems
  | cons p ps => rfl

theorem wellFormed_of_granted {r : Registry} {q : Request} {e : Entry}
    (he : (r.serve q).1 = .ok e) : problems q.path = [] := by
  by_contra hne
  rw [serve_malformed r hne] at he
  exact absurd he (by simp)

theorem register_of_wellFormed (r : Registry) {path file : Text} (hproblems : problems path = []) :
    r.register path file =
      match r.get? path, r.rival? path file with
      | some existing, rival =>
        if existing.file = file then (.ok existing, r)
        else
          match rival with
          | some other => (.error (.routeAmbiguous path other.path file other.file), r)
          | none => (.error (.routeTaken path existing.file file), r)
      | none, some other => (.error (.routeAmbiguous path other.path file other.file), r)
      | none, none => (.ok ⟨path, file⟩, r.add ⟨path, file⟩) := by
  unfold register
  cases hp : problems path with
  | nil => rfl
  | cons p ps => exact absurd (hp.symm.trans hproblems) (List.cons_ne_nil p ps)

/-! ## The invariant -/

/-- A registry that knows exactly what a row of requests says. -/
structure Reflects (qs : List Request) (r : Registry) : Prop where
  /-- The second list is the dynamic part of the first. -/
  inStep : r.dynamic = r.entries.filter Entry.isDynamic
  /-- The first entry under a key comes from the first request for that key. -/
  first : ∀ k, (r.entries.find? fun e ↦ decide (key e.path = k)) =
    (firstFor qs k).map Request.entry
  /-- All entries under a key have the source of the first request for it. -/
  owned : ∀ e ∈ r.entries, ∀ q, firstFor qs (key e.path) = some q → e.file = q.file

theorem reflects_nil : Reflects [] {} where
  inStep := rfl
  first _ := rfl
  owned _ he := absurd he List.not_mem_nil

namespace Reflects

variable {qs : List Request} {r : Registry} {q first : Request} (h : Reflects qs r)

include h

/-- Every entry stands under a key that was asked for, and belongs to the source that asked
first. -/
theorem exists_first {e : Entry} (he : e ∈ r.entries) :
    ∃ q, firstFor qs (key e.path) = some q ∧ e.file = q.file := by
  cases hfirst : firstFor qs (key e.path) with
  | some q => exact ⟨q, rfl, h.owned e he q hfirst⟩
  | none =>
    have hnone := h.first (key e.path)
    rw [hfirst, Option.map_none, List.find?_eq_none] at hnone
    exact absurd rfl (of_decide_eq_false (Bool.eq_false_iff.mpr (hnone e he)))

/-- An entry with the path of a request belongs to the source that first asked for the key. -/
theorem file_eq_of_get? {path : Text} {e : Entry} (hget : r.get? path = some e)
    (hfirst : firstFor qs (key path) = some first) : e.path = path ∧ e.file = first.file := by
  have hpath : e.path = path := by simpa using List.find?_some hget
  refine ⟨hpath, h.owned e (List.mem_of_find?_eq_some hget) first ?_⟩
  rw [hpath, hfirst]

theorem get?_eq_none {path : Text} (hnone : firstFor qs (key path) = none) :
    r.get? path = none := by
  cases hget : r.get? path with
  | none => rfl
  | some e =>
    have hpath : e.path = path := by simpa using List.find?_some hget
    obtain ⟨q, hq, -⟩ := h.exists_first (List.mem_of_find?_eq_some hget)
    rw [hpath, hnone] at hq
    exact absurd hq (by simp)

theorem of_rival? {path file : Text} {e : Entry}
    (hrival : r.rival? path file = some e) :
    e ∈ r.entries ∧ key e.path = key path ∧ e.file ≠ file := by
  unfold rival? at hrival
  split at hrival
  · next hdynamic =>
    rw [h.inStep] at hrival
    obtain ⟨hmem, hparams⟩ := List.mem_filter.mp (List.mem_of_find?_eq_some hrival)
    have hfound := List.find?_some hrival
    simp only [Bool.and_eq_true, bne_iff_ne, beq_iff_eq] at hfound
    exact ⟨hmem, (key_eq_iff_of_dynamic hdynamic).mpr ⟨hparams, hfound.2⟩, hfound.1⟩
  · exact absurd hrival (by simp)

/-- There is no rival as long as the source that asks is the one that asked first. -/
theorem rival?_eq_none {path file : Text}
    (hfile : ∀ q, firstFor qs (key path) = some q → file = q.file) : r.rival? path file = none := by
  cases hrival : r.rival? path file with
  | none => rfl
  | some e =>
    obtain ⟨hmem, hkey, hne⟩ := h.of_rival? hrival
    obtain ⟨q, hq, hq'⟩ := h.exists_first hmem
    rw [hkey] at hq
    exact absurd (hq'.trans (hfile q hq).symm) hne

/-- The rival of another source that asks for a route with parameters is the first request. -/
theorem rival?_eq_first {path file : Text} (hdynamic : isDynamic path = true)
    (hfirst : firstFor qs (key path) = some first) (hne : file ≠ first.file) :
    r.rival? path file = some first.entry := by
  have hcongr : ∀ e ∈ r.entries,
      decide (e.isDynamic = true ∧ (e.file != file && shape e.path == shape path) = true) =
        decide (key e.path = key path) := by
    intro e he
    rw [decide_eq_decide, key_eq_iff_of_dynamic hdynamic]
    simp only [Bool.and_eq_true, bne_iff_ne, beq_iff_eq]
    constructor
    · rintro ⟨hparams, -, hshape⟩
      exact ⟨hparams, hshape⟩
    · rintro ⟨hparams, hshape⟩
      have hkey : key e.path = key path :=
        (key_eq_iff_of_dynamic hdynamic).mpr ⟨hparams, hshape⟩
      refine ⟨hparams, ?_, hshape⟩
      rw [h.owned e he first (hkey ▸ hfirst)]
      exact hne.symm
  rw [rival?, if_pos hdynamic, h.inStep, List.find?_filter, List.find?_congr hcongr, h.first,
    hfirst, Option.map_some]

/-! ## What the invariant says about an answer -/

/-- A request from the source that asked first, or for a key that nobody asked for, is granted. -/
theorem serve_granted (hproblems : problems q.path = [])
    (hfile : ∀ f, firstFor qs (key q.path) = some f → q.file = f.file) :
    (r.serve q).1 = .ok q.entry := by
  have hrival : r.rival? q.path q.file = none := h.rival?_eq_none hfile
  rw [serve, register_of_wellFormed r hproblems, hrival]
  cases hget : r.get? q.path with
  | none => rfl
  | some e =>
    cases hfirst : firstFor qs (key q.path) with
    | none => exact absurd (h.get?_eq_none hfirst) (by simp [hget])
    | some f =>
      obtain ⟨hpath, howner⟩ := h.file_eq_of_get? hget hfirst
      have hsame : e.file = q.file := howner.trans (hfile f hfirst).symm
      have hentry : e = q.entry := by rw [Request.entry, ← hpath, ← hsame]
      simp only [if_pos hsame]
      exact congrArg Except.ok hentry

/-- A request from any other source is refused, and the refusal names the source that asked
first. -/
theorem serve_refused (hproblems : problems q.path = [])
    (hfirst : firstFor qs (key q.path) = some first) (hne : q.file ≠ first.file) :
    r.serve q = (.error (q.refusal first), r) := by
  rw [serve, register_of_wellFormed r hproblems, Request.refusal]
  cases hdynamic : isDynamic q.path with
  | true =>
    rw [h.rival?_eq_first hdynamic hfirst hne]
    cases hget : r.get? q.path with
    | none => rfl
    | some e =>
      have hother : e.file ≠ q.file := by
        rw [(h.file_eq_of_get? hget hfirst).2]
        exact hne.symm
      simp only [if_neg hother]
      rfl
  | false =>
    -- Without parameters the key is the path, so the first request has left its entry there.
    have hget : r.get? q.path = some first.entry := by
      have hfound := h.first (key q.path)
      rw [hfirst, Option.map_some] at hfound
      rw [← hfound, get?]
      refine List.find?_congr fun e _ ↦ ?_
      rw [Bool.eq_iff_iff, beq_iff_eq, decide_eq_true_iff]
      exact ⟨fun hpath ↦ by rw [hpath], eq_of_key_eq_of_static hdynamic⟩
    have hrival : r.rival? q.path q.file = none := by simp [rival?, hdynamic]
    rw [hget, hrival]
    have hother : first.entry.file ≠ q.file := hne.symm
    simp only [if_neg hother]
    rfl

/-- A granted request comes from the source that asked first, counting the request itself. -/
theorem first_of_granted {e : Entry} (he : (r.serve q).1 = .ok e) :
    ∃ f, firstFor (qs ++ [q]) (key q.path) = some f ∧ q.file = f.file := by
  have hproblems := wellFormed_of_granted he
  rw [firstFor_append, firstFor_singleton, if_pos ⟨hproblems, rfl⟩]
  cases hfirst : firstFor qs (key q.path) with
  | none => exact ⟨q, rfl, rfl⟩
  | some f =>
    refine ⟨f, rfl, ?_⟩
    by_contra hne
    rw [h.serve_refused hproblems hfirst hne] at he
    exact absurd he (by simp)

/-- A request that is malformed, or for a key that was asked for before, does not make the registry
out of date. -/
theorem concat_of_old
    (hold : problems q.path = [] → ∃ f, firstFor qs (key q.path) = some f) :
    Reflects (qs ++ [q]) r := by
  have hsame : ∀ k, firstFor (qs ++ [q]) k = firstFor qs k := by
    intro k
    rw [firstFor_append, firstFor_singleton]
    by_cases hasks : problems q.path = [] ∧ key q.path = k
    · obtain ⟨hproblems, rfl⟩ := hasks
      obtain ⟨f, hf⟩ := hold hproblems
      rw [hf, Option.some_or]
    · rw [if_neg hasks, Option.or_none]
  exact ⟨h.inStep, fun k ↦ by rw [hsame, h.first], fun e he f hf ↦ h.owned e he f (hsame _ ▸ hf)⟩

theorem concat_of_refused {d : Diagnostic} (hd : (r.serve q).1 = .error d) :
    Reflects (qs ++ [q]) r := by
  refine h.concat_of_old fun hproblems ↦ ?_
  cases hfirst : firstFor qs (key q.path) with
  | some f => exact ⟨f, rfl⟩
  | none =>
    have hgranted := h.serve_granted hproblems (by simp [hfirst])
    exact absurd (hgranted.symm.trans hd) (by simp)

theorem concat_of_added (hok : (r.serve q).1 = .ok q.entry) :
    Reflects (qs ++ [q]) (r.add q.entry) where
  inStep := by
    rw [add, List.filter_append, h.inStep]
    cases hdynamic : q.entry.isDynamic with
    | true => simp [hdynamic]
    | false => simp [hdynamic]
  first k := by
    have hproblems := wellFormed_of_granted hok
    rw [add, List.find?_append, h.first, firstFor_append, firstFor_singleton]
    by_cases hkey : key q.path = k
    · cases firstFor qs k <;> simp [hkey, hproblems, Request.entry]
    · cases firstFor qs k <;> simp [hkey, Request.entry]
  owned e he f hf := by
    rcases List.mem_append.mp he with hmem | hnew
    · obtain ⟨g, hg, hfile⟩ := h.exists_first hmem
      rw [firstFor_append, hg, Option.some_or] at hf
      rw [hfile, Option.some.inj hf]
    · obtain rfl := List.mem_singleton.mp hnew
      obtain ⟨g, hg, hfile⟩ := h.first_of_granted hok
      exact hfile.trans (congrArg Request.file (Option.some.inj (hg.symm.trans hf)))

theorem serve (q : Request) : Reflects (qs ++ [q]) (r.serve q).2 := by
  rcases r.serve_cases q with ⟨d, hd⟩ | ⟨hget, hok⟩ | ⟨-, hok⟩
  · rw [hd]
    exact h.concat_of_refused (congrArg Prod.fst hd)
  · rw [hok]
    refine h.concat_of_old fun _ ↦ ?_
    obtain ⟨f, hf, -⟩ := h.exists_first (List.mem_of_find?_eq_some hget)
    exact ⟨f, hf⟩
  · rw [hok]
    exact h.concat_of_added (congrArg Prod.fst hok)

end Reflects

/-- Every registry reflects the requests it was reached by. -/
theorem reflects_after (qs : List Request) : Reflects qs (after {} qs) := by
  induction qs using List.reverseRecOn with
  | nil => exact reflects_nil
  | append_singleton qs q ih =>
    rw [after_concat]
    exact ih.serve q

/-! ## The list of entries -/

/-- Serving a request may add an entry at the end, and that is all it does to the entries. -/
theorem entries_prefix_serve (r : Registry) (q : Request) :
    r.entries <+: (r.serve q).2.entries := by
  rcases r.serve_cases q with ⟨d, hd⟩ | ⟨-, hok⟩ | ⟨-, hok⟩
  · exact hd ▸ List.prefix_refl _
  · exact hok ▸ List.prefix_refl _
  · exact hok ▸ List.prefix_append _ _

theorem entries_prefix_after (r : Registry) (qs : List Request) :
    r.entries <+: (r.after qs).entries := by
  induction qs generalizing r with
  | nil => exact List.prefix_refl _
  | cons q qs ih => exact (r.entries_prefix_serve q).trans (ih _)

theorem mem_paths_iff (r : Registry) (path : Text) :
    path ∈ r.entries.map Entry.path ↔ (r.get? path).isSome = true := by
  simp [get?]

/-- The entries list every granted path once, in the order in which the paths were first granted. -/
theorem paths_after (qs : List Request) :
    (after {} qs).entries.map Entry.path = distinct (grantedPaths {} qs) := by
  induction qs using List.reverseRecOn with
  | nil => rfl
  | append_singleton qs q ih =>
    rw [after_concat, grantedPaths, answers_concat, List.filterMap_append, ← grantedPaths]
    rcases (after {} qs).serve_cases q with ⟨d, hd⟩ | ⟨hget, hok⟩ | ⟨hget, hok⟩
    · rw [hd]
      simpa using ih
    · have hmem : q.path ∈ distinct (grantedPaths {} qs) := by
        rw [← ih, mem_paths_iff, hget, Option.isSome_some]
      rw [hok]
      simpa [distinct_concat, Request.entry, hmem] using ih
    · have hnew : q.path ∉ distinct (grantedPaths {} qs) := by
        rw [← ih, mem_paths_iff, hget]
        exact Bool.false_ne_true
      rw [hok]
      simp [distinct_concat, Request.entry, hnew, add, ih]

/-! ## Keys and their owners -/

/-- The keys that are taken are those that were asked for by well-formed requests. -/
theorem mem_claimed_after (qs : List Request) (k : Key) :
    k ∈ (after {} qs).claimed ↔ ∃ q ∈ qs, problems q.path = [] ∧ key q.path = k := by
  have hfirst := congrArg Option.isSome ((reflects_after qs).first k)
  rw [Option.isSome_map, Bool.eq_iff_iff, List.find?_isSome, firstFor, List.find?_isSome] at hfirst
  simpa [claimed, Request.asksFor] using hfirst

/-- A key has one owner: the source that asked for it first. -/
theorem owner_unique (qs : List Request) {k : Key} (hk : k ∈ (after {} qs).claimed) :
    ∃! file, ∃ e ∈ (after {} qs).entries, key e.path = k ∧ e.file = file := by
  obtain ⟨e, he, rfl⟩ := List.mem_map.mp hk
  refine ⟨e.file, ⟨e, he, rfl, rfl⟩, ?_⟩
  rintro file ⟨other, hother, hkey, rfl⟩
  obtain ⟨f, hf, hfile⟩ := (reflects_after qs).exists_first he
  rw [hfile]
  exact (reflects_after qs).owned other hother f (hkey ▸ hf)

/-! ## The law -/

/-- The answer to a request among others: malformed requests are refused for their brackets, and of
the others those are granted that come from the source of the first request for the same key. -/
theorem serve_eq (before later : List Request) (q : Request) (hproblems : problems q.path = []) :
    ∃ first, firstFor (before ++ q :: later) (key q.path) = some first ∧
      ((after {} before).serve q).1 =
        if q.file = first.file then .ok q.entry else .error (q.refusal first) := by
  have h := reflects_after before
  have hq : firstFor (q :: later) (key q.path) = some q := by
    rw [← List.singleton_append, firstFor_append, firstFor_singleton, if_pos ⟨hproblems, rfl⟩,
      Option.some_or]
  rw [firstFor_append, hq]
  cases hfirst : firstFor before (key q.path) with
  | none =>
    refine ⟨q, rfl, ?_⟩
    rw [if_pos rfl]
    exact h.serve_granted hproblems (by simp [hfirst])
  | some first =>
    refine ⟨first, rfl, ?_⟩
    by_cases hfile : q.file = first.file
    · rw [if_pos hfile]
      refine h.serve_granted hproblems fun f hf ↦ ?_
      rw [hfile, Option.some.inj (hfirst.symm.trans hf)]
    · rw [if_neg hfile, h.serve_refused hproblems hfirst hfile]

/-- **First come, first served.** In every row of requests to an empty registry, a malformed request
is refused as such, and any other is granted exactly when it comes from the source of the first
well-formed request for its key; its refusal is about shapes if the route has parameters, about the
path otherwise, and names that source. A refusal changes nothing, entries stay for good, and they
list the granted paths once each in the order of their first success. So the keys that are taken do
not depend on the order of the requests, and each has one owner. -/
theorem first_request_owns_route (qs : List Request) :
    (∀ before q later, qs = before ++ q :: later →
      (problems q.path ≠ [] → ((after {} before).serve q).1 = .error q.malformed) ∧
      (problems q.path = [] → ∃ first, firstFor qs (key q.path) = some first ∧
        ((after {} before).serve q).1 =
          if q.file = first.file then .ok q.entry else .error (q.refusal first)) ∧
      (∀ d, ((after {} before).serve q).1 = .error d → after {} (before ++ [q]) = after {} before) ∧
      (after {} before).entries <+: (after {} qs).entries) ∧
    (after {} qs).entries.map Entry.path = distinct (grantedPaths {} qs) ∧
    (∀ others, qs.Perm others → ∀ k, k ∈ (after {} qs).claimed ↔ k ∈ (after {} others).claimed) ∧
    (∀ k ∈ (after {} qs).claimed,
      ∃! file, ∃ e ∈ (after {} qs).entries, key e.path = k ∧ e.file = file) := by
  refine ⟨?_, paths_after qs, ?_, fun k hk ↦ owner_unique qs hk⟩
  · rintro before q later rfl
    refine ⟨fun hproblems ↦ ?_, serve_eq before later q, fun d hd ↦ ?_, ?_⟩
    · rw [serve_malformed _ hproblems]
    · rw [after_concat]
      exact registry_of_refused hd
    · rw [after_append]
      exact entries_prefix_after _ _
  · intro others hperm k
    simp only [mem_claimed_after, hperm.mem_iff]

example : grantedPaths {} [⟨"/user/[id]", "a"⟩, ⟨"/user/[name]", "b"⟩, ⟨"/user/[name]", "a"⟩] =
    ["/user/[id]", "/user/[name]"] := by decide

end Registry

end Route

end PageCompiler
