import Mathlib.Data.List.Forall2
import PageCompiler.Proofs.RouteResolution

/-!
# What a route matches

A route matches the paths that have as many segments as it has, and the same ones except where it
has a parameter. Two things depend on how it is written all the same.

## Names of parameters

The values of the parameters are kept under their names. Where two parameters have one name only the
later value is kept, and the path is not known by its values any more. If the names are different it
always is, and only then (`Route.Entry.restores_iff`).

## The wildcard as a segment

Routes are compared by their shapes, in which a wildcard stands for a parameter. A segment may be
the wildcard itself, and such a segment looks like a parameter. So a route is refused where no
address tells it from a route of another source, as it should be, and also where only such a segment
makes the two look alike (`Route.Registry.register_ambiguous_iff`).
-/

namespace PageCompiler

namespace OrderedMap

variable {β : Type}

theorem exists_get?_foldl_put {pairs : List (Text × β)} {key : Text}
    (h : key ∈ pairs.map Prod.fst) (known : OrderedMap β) :
    ∃ value, (key, value) ∈ pairs ∧
      get? (pairs.foldl (fun m pair ↦ put pair.1 pair.2 m) known) key = some value := by
  induction pairs using List.reverseRecOn with
  | nil => exact absurd h List.not_mem_nil
  | append_singleton pairs last ih =>
    rw [List.foldl_append, List.foldl_cons, List.foldl_nil]
    by_cases hkey : key = last.1
    · refine ⟨last.2, ?_, ?_⟩
      · rw [hkey]
        exact List.mem_append_right _ List.mem_cons_self
      · rw [hkey, get?_put_self]
    · have hmem : key ∈ pairs.map Prod.fst := by
        simpa [hkey] using h
      obtain ⟨value, hvalue, hget⟩ := ih hmem
      exact ⟨value, List.mem_append_left _ hvalue, by rw [get?_put_of_ne hkey, hget]⟩

/-- All pairs are found exactly if no two of them disagree. -/
theorem get?_foldl_put_iff {pairs : List (Text × β)} (known : OrderedMap β) :
    (∀ pair ∈ pairs,
      get? (pairs.foldl (fun m pair ↦ put pair.1 pair.2 m) known) pair.1 = some pair.2) ↔
      ∀ first ∈ pairs, ∀ second ∈ pairs, first.1 = second.1 → first.2 = second.2 := by
  constructor
  · intro hfound first hfirst second hsecond hkey
    have hget := hfound first hfirst
    rw [hkey, hfound second hsecond] at hget
    exact (Option.some.inj hget).symm
  · intro hagree pair hpair
    obtain ⟨value, hvalue, hget⟩ := exists_get?_foldl_put (List.mem_map_of_mem hpair) known
    rw [hget]
    exact congrArg some (hagree _ hvalue _ hpair rfl)

end OrderedMap

variable {ts : List Text} {s t : Text}

namespace Route

/-! ## Segments that fit -/

/-- Whether a segment may stand in the place of a segment of a route. -/
def Fits (segment actual : Text) : Prop := parameter? segment = none → segment = actual

/-- What stands in the places of the parameters, with their names. -/
def captures (pattern actual : List Text) : List (Text × Text) :=
  (pattern.zip actual).filterMap fun pair ↦ (parameter? pair.1).map fun name ↦ (name, pair.2)

section Captures

variable {pattern actual : List Text} {p a name : Text}

theorem captures_cons_of_some (h : parameter? p = some name) :
    captures (p :: pattern) (a :: actual) = (name, a) :: captures pattern actual := by
  rw [captures, List.zip_cons_cons, List.filterMap_cons_some (by rw [h]; rfl), captures]

theorem captures_cons_of_none (h : parameter? p = none) :
    captures (p :: pattern) (a :: actual) = captures pattern actual := by
  rw [captures, List.zip_cons_cons, List.filterMap_cons_none (by rw [h]; rfl), captures]

/-- A pattern matches what fits it, and keeps what its parameters stand for in order. -/
theorem matchSegments_eq_some_iff {known values : OrderedMap Text} :
    matchSegments pattern actual known = some values ↔
      List.Forall₂ Fits pattern actual ∧
        values = (captures pattern actual).foldl (fun m pair ↦ OrderedMap.put pair.1 pair.2 m)
          known := by
  induction pattern generalizing actual known with
  | nil =>
    cases actual with
    | nil => simp [matchSegments, captures, eq_comm]
    | cons a as => simp [matchSegments]
  | cons p ps ih =>
    cases actual with
    | nil => simp [matchSegments]
    | cons a as =>
      rw [matchSegments, List.forall₂_cons]
      cases hp : parameter? p with
      | some name => simp [ih, captures_cons_of_some hp, Fits, hp]
      | none =>
        by_cases heq : p = a
        · subst heq
          simp [ih, captures_cons_of_none hp, Fits]
        · simp [Fits, hp, heq]

theorem isSome_matchSegments_iff (known : OrderedMap Text) :
    (matchSegments pattern actual known).isSome = true ↔ List.Forall₂ Fits pattern actual := by
  rw [Option.isSome_iff_exists]
  constructor
  · rintro ⟨values, hvalues⟩
    exact (matchSegments_eq_some_iff.mp hvalues).1
  · intro hfits
    exact ⟨_, matchSegments_eq_some_iff.mpr ⟨hfits, rfl⟩⟩

theorem map_fst_captures (h : List.Forall₂ Fits pattern actual) :
    (captures pattern actual).map Prod.fst = pattern.filterMap parameter? := by
  induction h with
  | nil => rfl
  | @cons p a ps as _ _ ih =>
    cases hp : parameter? p with
    | some name =>
      rw [captures_cons_of_some hp, List.map_cons, ih, List.filterMap_cons_some hp]
    | none => rw [captures_cons_of_none hp, ih, List.filterMap_cons_none hp]

end Captures

/-! ## Putting the values back -/

/-- A segment with the value of its parameter in its place, if there is one. -/
def fillSegment? (values : OrderedMap Text) (segment : Text) : Option Text :=
  match parameter? segment with
  | some name => OrderedMap.get? values name
  | none => some segment

/-- The segments of a route with the values of its parameters in their places, if all have one. -/
def Entry.restore? (e : Entry) (values : OrderedMap Text) : Option (List Text) :=
  e.segments.mapM (fillSegment? values)

section Restore

variable {pattern actual : List Text} {values : OrderedMap Text}

theorem mapM_fillSegment?_eq_some_iff :
    pattern.mapM (fillSegment? values) = some actual ↔
      List.Forall₂ (fun segment a ↦ fillSegment? values segment = some a) pattern actual := by
  induction pattern generalizing actual with
  | nil => simp [eq_comm]
  | cons p ps ih =>
    rw [List.mapM_cons, List.forall₂_cons_left_iff]
    simp only [Option.bind_eq_bind, Option.bind_eq_some_iff, Option.pure_def, Option.some.injEq, ih]
    constructor
    · rintro ⟨a, ha, as, has, rfl⟩
      exact ⟨a, as, ha, has, rfl⟩
    · rintro ⟨a, as, ha, has, rfl⟩
      exact ⟨a, ha, as, has, rfl⟩

/-- The segments come back exactly if every parameter has the value that it stood for. -/
theorem forall₂_fillSegment?_iff (h : List.Forall₂ Fits pattern actual) :
    List.Forall₂ (fun segment a ↦ fillSegment? values segment = some a) pattern actual ↔
      ∀ pair ∈ captures pattern actual, OrderedMap.get? values pair.1 = some pair.2 := by
  induction h with
  | nil => simp [captures]
  | @cons p a ps as hfits _ ih =>
    rw [List.forall₂_cons, ih, fillSegment?]
    cases hp : parameter? p with
    | some name => rw [captures_cons_of_some hp, List.forall_mem_cons]
    | none =>
      rw [captures_cons_of_none hp]
      simp [hfits hp]

end Restore

/-- Whether no two parameters of one name stand for different segments. -/
def Consistent (pairs : List (Text × Text)) : Prop :=
  ∀ first ∈ pairs, ∀ second ∈ pairs, first.1 = second.1 → first.2 = second.2

variable {e f : Entry}

/-- The values give the segments of a path back exactly if parameters of one name stood for the same
segment in it. -/
theorem Entry.restore?_iff {path : Text} {values : OrderedMap Text}
    (h : e.match? path = some values) :
    e.restore? values = some (Route.segments path) ↔
      Consistent (captures e.segments (Route.segments path)) := by
  obtain ⟨hfits, rfl⟩ := matchSegments_eq_some_iff.mp h
  rw [restore?, mapM_fillSegment?_eq_some_iff, forall₂_fillSegment?_iff hfits]
  exact OrderedMap.get?_foldl_put_iff []

/-! ## Paths from segments -/

def pathOf (ts : List Text) : Text := '/' :: Text.join ['/'] ts

/-- Whether a text can be a segment of a path. -/
def IsSegment (t : Text) : Prop := t ≠ [] ∧ '/' ∉ t

theorem isSegment_of_mem_segments {path segment : Text} (h : segment ∈ segments path) :
    IsSegment segment :=
  ⟨ne_nil_of_mem_segments h, Text.notMem_of_mem_splitOn segment (List.mem_filter.mp h).1⟩

theorem segments_pathOf (h : ∀ t ∈ ts, IsSegment t) : segments (pathOf ts) = ts := by
  cases ts with
  | nil => rfl
  | cons first rest => exact segments_join (List.cons_ne_nil _ _) h

/-- A row of segments that fits a pattern, with a different text in each place of a parameter. -/
def numbered (n : Nat) : List Text → List Text
  | [] => []
  | p :: ps =>
    (if (parameter? p).isSome then List.replicate (n + 1) 'x' else p) :: numbered (n + 1) ps

theorem fits_numbered (n : Nat) (pattern : List Text) :
    List.Forall₂ Fits pattern (numbered n pattern) := by
  induction pattern generalizing n with
  | nil => exact .nil
  | cons p ps ih =>
    refine .cons (fun hnone ↦ ?_) (ih (n + 1))
    rw [hnone]
    rfl

theorem isSegment_of_mem_numbered {n : Nat} {pattern : List Text}
    (h : ∀ p ∈ pattern, IsSegment p) : ∀ t ∈ numbered n pattern, IsSegment t := by
  induction pattern generalizing n with
  | nil => exact fun t ht ↦ absurd ht List.not_mem_nil
  | cons p ps ih =>
    obtain ⟨hp, hps⟩ := List.forall_mem_cons.mp h
    refine List.forall_mem_cons.mpr ⟨?_, ih hps⟩
    split_ifs
    · exact ⟨List.cons_ne_nil _ _, by simp [List.mem_replicate]⟩
    · exact hp

/-- The texts in the places of parameters get longer and longer. -/
theorem pairwise_captures_numbered (n : Nat) (pattern : List Text) :
    (captures pattern (numbered n pattern)).Pairwise (fun c d ↦ c.2.length < d.2.length) ∧
      ∀ c ∈ captures pattern (numbered n pattern), n < c.2.length := by
  induction pattern generalizing n with
  | nil => exact ⟨List.Pairwise.nil, fun c hc ↦ absurd hc List.not_mem_nil⟩
  | cons p ps ih =>
    obtain ⟨hpairwise, hlow⟩ := ih (n + 1)
    rw [numbered]
    cases hp : parameter? p with
    | some name =>
      rw [captures_cons_of_some hp]
      refine ⟨List.pairwise_cons.mpr ⟨fun d hd ↦ ?_, hpairwise⟩,
        List.forall_mem_cons.mpr ⟨?_, fun c hc ↦ (Nat.lt_succ_self n).trans (hlow c hc)⟩⟩
      · simpa using hlow d hd
      · simp
    | none =>
      rw [captures_cons_of_none hp]
      exact ⟨hpairwise, fun c hc ↦ (Nat.lt_succ_self n).trans (hlow c hc)⟩

namespace Entry

variable {e : Entry}

theorem match?_pathOf_iff (h : ∀ t ∈ ts, IsSegment t) :
    (e.match? (pathOf ts)).isSome = true ↔ List.Forall₂ Fits e.segments ts := by
  rw [match?, segments_pathOf h, isSome_matchSegments_iff]

theorem consistent_of_nodup {actual : List Text} (hfits : List.Forall₂ Fits e.segments actual)
    (hnodup : e.parameters.Nodup) : Consistent (captures e.segments actual) := by
  intro first hfirst second hsecond hname
  have hkeys : ((captures e.segments actual).map Prod.fst).Nodup := by
    rw [map_fst_captures hfits]
    exact hnodup
  exact congrArg Prod.snd (List.inj_on_of_nodup_map hkeys hfirst hsecond hname)

/-- Where a name is used twice, a path that has different texts in all places is not consistent. -/
theorem nodup_of_consistent
    (h : Consistent (captures e.segments (numbered 0 e.segments))) : e.parameters.Nodup := by
  have hpairwise := (pairwise_captures_numbered 0 e.segments).1
  have hnodup : ((captures e.segments (numbered 0 e.segments)).map Prod.fst).Nodup := by
    refine List.pairwise_map.mpr (hpairwise.imp_of_mem fun hc hd hlt hname ↦ ?_)
    rw [h _ hc _ hd hname] at hlt
    exact absurd hlt (lt_irrefl _)
  rw [map_fst_captures (fits_numbered 0 e.segments)] at hnodup
  exact hnodup

/-- **A path is known by the values it gives to a route with different parameters**, and only to
such a route. On every path that a route matches, putting the values back in the places of the
parameters gives the segments of the path exactly if parameters of one name stood for the same
segment; and it does so on all paths that the route matches exactly if no two of its parameters have
one name. -/
theorem restores_iff (e : Entry) :
    (∀ path values, e.match? path = some values →
      (e.restore? values = some (Route.segments path) ↔
        Consistent (captures e.segments (Route.segments path)))) ∧
    ((∀ path values, e.match? path = some values → e.restore? values = some (Route.segments path)) ↔
      e.parameters.Nodup) := by
  refine ⟨fun path values h ↦ restore?_iff h, fun hall ↦ ?_, fun hnodup path values h ↦ ?_⟩
  · have hsegments : ∀ t ∈ numbered 0 e.segments, IsSegment t :=
      isSegment_of_mem_numbered fun p hp ↦ isSegment_of_mem_segments hp
    have hmatch := (match?_pathOf_iff hsegments).mpr (fits_numbered 0 e.segments)
    obtain ⟨values, hvalues⟩ := Option.isSome_iff_exists.mp hmatch
    have hconsistent := (restore?_iff hvalues).mp (hall _ values hvalues)
    rw [segments_pathOf hsegments] at hconsistent
    exact nodup_of_consistent hconsistent
  · obtain ⟨hfits, -⟩ := matchSegments_eq_some_iff.mp h
    exact (restore?_iff h).mpr (consistent_of_nodup hfits hnodup)

/-- Two parameters around a fixed segment. -/
theorem two_parameters_restored :
    let e : Entry := ⟨"/[a]/x/[b]", "p.mtm"⟩
    let values : OrderedMap Text := [(("a" : Text), ("1" : Text)), (("b" : Text), ("2" : Text))]
    e.parameters.Nodup ∧ e.match? "/1/x/2" = some values ∧
      e.restore? values = some [("1" : Text), ("x" : Text), ("2" : Text)] := by
  intro e values
  have hnodup : e.parameters.Nodup := by decide
  have hmatch : e.match? "/1/x/2" = some values := by decide
  exact ⟨hnodup, hmatch, (restores_iff e).2.mpr hnodup _ values hmatch⟩

/-- A route may have two parameters of one name, and then the first of the two values is lost. -/
theorem repeated_name_loses_segment :
    ¬∀ (qs : List Request), ∀ e ∈ (Registry.after {} qs).entries, ∀ path values,
      e.match? path = some values → e.restore? values = some (Route.segments path) := by
  intro h
  have hrestored := h [⟨"/[a]/[a]", "p.mtm"⟩] ⟨"/[a]/[a]", "p.mtm"⟩ (by decide) "/1/2"
    [(("a" : Text), ("2" : Text))] (by decide)
  exact absurd hrestored (by decide)

end Entry

/-! ## Routes that no address tells apart -/

/-- Whether the same may stand in the places of two segments. -/
def SameSegment (s t : Text) : Prop :=
  s = t ∨ (parameter? s).isSome = true ∧ (parameter? t).isSome = true

theorem SameSegment.symm (h : SameSegment s t) : SameSegment t s :=
  h.imp Eq.symm And.symm

theorem SameSegment.fits {a : Text} (h : SameSegment s t) (hfits : Fits s a) : Fits t a := by
  rcases h with rfl | ⟨-, ht⟩
  · exact hfits
  · intro hnone
    rw [hnone] at ht
    exact absurd ht Bool.false_ne_true

theorem sameSegment_of_fits (hst : Fits s t) (hts : Fits t s) : SameSegment s t := by
  cases hs : parameter? s with
  | none => exact .inl (hst hs)
  | some name =>
    cases ht : parameter? t with
    | none => exact .inl (hts ht).symm
    | some other => exact .inr ⟨by rw [hs]; rfl, by rw [ht]; rfl⟩

theorem forall₂_sameSegment_of_fits {ss : List Text} (hst : List.Forall₂ Fits ss ts)
    (hts : List.Forall₂ Fits ts ss) : List.Forall₂ SameSegment ss ts := by
  induction hst with
  | nil => exact .nil
  | cons hfirst _ ih =>
    cases hts with
    | cons hback hrest => exact .cons (sameSegment_of_fits hfirst hback) (ih hrest)

theorem forall₂_fits_of_sameSegment {ps as : List Text} (h : List.Forall₂ SameSegment ps ts)
    (hfits : List.Forall₂ Fits ps as) : List.Forall₂ Fits ts as := by
  induction h generalizing as with
  | nil => exact hfits
  | cons hsame _ ih =>
    cases hfits with
    | cons hfirst hrest => exact .cons (hsame.fits hfirst) (ih hrest)

namespace Entry

theorem isSome_match?_iff {path : Text} :
    (e.match? path).isSome = true ↔ List.Forall₂ Fits e.segments (Route.segments path) :=
  isSome_matchSegments_iff []

theorem isSome_match?_self (e : Entry) : (e.match? e.path).isSome = true :=
  isSome_match?_iff.mpr (List.forall₂_same.mpr fun _ _ _ ↦ rfl)

/-- **Two routes match the same paths exactly if they are the same up to the names of their
parameters.** The routes themselves are the paths to try. -/
theorem samePaths_iff :
    (∀ path, (e.match? path).isSome = (f.match? path).isSome) ↔
      List.Forall₂ SameSegment e.segments f.segments := by
  constructor
  · intro hsame
    have hef := (hsame f.path).trans (isSome_match?_self f)
    have hfe := (hsame e.path).symm.trans (isSome_match?_self e)
    exact forall₂_sameSegment_of_fits (isSome_match?_iff.mp hef) (isSome_match?_iff.mp hfe)
  · intro hsame path
    rw [Bool.eq_iff_iff, isSome_match?_iff, isSome_match?_iff]
    exact ⟨forall₂_fits_of_sameSegment hsame,
      forall₂_fits_of_sameSegment (hsame.flip.imp fun _ _ ↦ SameSegment.symm)⟩

end Entry

/-! ## Routes that look alike -/

/-- A segment as it stands in the shape of a route. -/
def shown (segment : Text) : Text := if (parameter? segment).isSome then wildcard else segment

/-- Whether one of two segments is a parameter and the other one the wildcard itself. -/
def Mistakable (s t : Text) : Prop :=
  (parameter? s).isSome = true ∧ t = wildcard ∨ s = wildcard ∧ (parameter? t).isSome = true

theorem shape_eq (path : Text) : shape path = pathOf ((segments path).map shown) := rfl

theorem isSegment_shown {segment : Text} (h : IsSegment segment) : IsSegment (shown segment) := by
  rw [shown]
  split_ifs
  · exact ⟨by decide, by decide⟩
  · exact h

theorem shape_eq_iff {path other : Text} :
    shape path = shape other ↔
      List.Forall₂ (fun s t ↦ shown s = shown t) (segments path) (segments other) := by
  have hsegments : ∀ path : Text, segments (shape path) = (segments path).map shown := by
    intro path
    rw [shape_eq]
    refine segments_pathOf fun t ht ↦ ?_
    obtain ⟨segment, hsegment, rfl⟩ := List.mem_map.mp ht
    exact isSegment_shown (isSegment_of_mem_segments hsegment)
  have hmap : List.Forall₂ Eq ((segments path).map shown) ((segments other).map shown) ↔
      (segments path).map shown = (segments other).map shown := by
    rw [List.forall₂_eq_eq_eq]
  rw [List.forall₂_map_left_iff, List.forall₂_map_right_iff] at hmap
  rw [hmap]
  constructor
  · intro hshape
    rw [← hsegments, ← hsegments, hshape]
  · intro heq
    rw [shape_eq, shape_eq, heq]

theorem shown_eq_iff : shown s = shown t ↔ SameSegment s t ∨ Mistakable s t := by
  have hne : parameter? s ≠ parameter? t → s ≠ t := fun h heq ↦ h (heq ▸ rfl)
  unfold shown SameSegment Mistakable
  cases hs : parameter? s with
  | none =>
    cases ht : parameter? t with
    | none => simp
    | some name => simp [hne (by simp [hs, ht])]
  | some name =>
    cases ht : parameter? t with
    | none => simp [hne (by simp [hs, ht]), eq_comm]
    | some other => simp

/-- Whether two routes have one shape only because a segment that is the wildcard itself was taken
for a parameter. -/
def OnlyLookAlike (path other : Text) : Prop :=
  List.Forall₂ (fun s t ↦ SameSegment s t ∨ Mistakable s t) (segments path) (segments other) ∧
    ∃ pair ∈ (segments path).zip (segments other), Mistakable pair.1 pair.2

theorem Mistakable.not_sameSegment (h : Mistakable s t) : ¬SameSegment s t := by
  have hwildcard : ¬(parameter? wildcard).isSome = true := by decide
  rintro (rfl | ⟨hs, ht⟩)
  · rcases h with ⟨hs, rfl⟩ | ⟨rfl, hs⟩
    · exact hwildcard hs
    · exact hwildcard hs
  · rcases h with ⟨-, rfl⟩ | ⟨rfl, -⟩
    · exact hwildcard ht
    · exact hwildcard hs

/-- Routes of one shape match the same paths, or they only look alike. -/
theorem shape_eq_iff_or :
    shape e.path = shape f.path ↔
      (∀ path, (e.match? path).isSome = (f.match? path).isSome) ∨ OnlyLookAlike e.path f.path := by
  rw [shape_eq_iff, Entry.samePaths_iff, OnlyLookAlike]
  simp only [shown_eq_iff]
  constructor
  · intro halike
    by_cases hmistaken : ∃ pair ∈ e.segments.zip f.segments, Mistakable pair.1 pair.2
    · exact .inr ⟨halike, hmistaken⟩
    · left
      obtain ⟨hlength, hall⟩ := List.forall₂_iff_zip.mp halike
      refine List.forall₂_iff_zip.mpr ⟨hlength, fun {s t} hmem ↦ ?_⟩
      exact (hall hmem).resolve_right fun h ↦ hmistaken ⟨(s, t), hmem, h⟩
  · rintro (hsame | ⟨halike, -⟩)
    · exact hsame.imp fun _ _ ↦ .inl
    · exact halike

/-- Routes that only look alike are told apart by some path. -/
theorem OnlyLookAlike.exists_path (h : OnlyLookAlike e.path f.path) :
    ∃ path, (e.match? path).isSome ≠ (f.match? path).isSome := by
  by_contra hnone
  have hsame := Entry.samePaths_iff.mp fun path ↦ not_not.mp fun hne ↦ hnone ⟨path, hne⟩
  obtain ⟨-, pair, hpair, hmistaken⟩ := h
  exact hmistaken.not_sameSegment ((List.forall₂_iff_zip.mp hsame).2 hpair)

/-! ## Refusals -/

namespace Registry

/-- A route with parameters is refused as ambiguous exactly if a route of another source has its
shape. -/
theorem register_ambiguous_iff_shape (qs : List Request) {path file : Text}
    (hproblems : problems path = []) (hdynamic : Route.isDynamic path = true) :
    (∃ other owner, ((after {} qs).register path file).1 =
        .error (.routeAmbiguous path other file owner)) ↔
      ∃ e ∈ (after {} qs).entries,
        e.isDynamic = true ∧ e.file ≠ file ∧ shape e.path = shape path := by
  have h := reflects_after qs
  let q : Request := ⟨path, file⟩
  constructor
  · rintro ⟨other, owner, herror⟩
    have hserve : ((after {} qs).serve q).1 = _ := herror
    -- A request for a new key, or from the source that has the key, would have been granted.
    have hfirst : ∃ first, firstFor qs (key path) = some first ∧ file ≠ first.file := by
      by_contra hnone
      have hgranted := h.serve_granted (q := q) hproblems fun first hfirst ↦
        not_not.mp fun hne ↦ hnone ⟨first, hfirst, hne⟩
      cases hgranted.symm.trans hserve
    obtain ⟨first, hfirst, hne⟩ := hfirst
    have hfound := h.first (key path)
    rw [hfirst, Option.map_some] at hfound
    have hdecided := List.find?_some hfound
    have hkey : key first.path = key path := of_decide_eq_true hdecided
    obtain ⟨hparameters, hshape⟩ := (key_eq_iff_of_dynamic hdynamic).mp hkey
    exact ⟨first.entry, List.mem_of_find?_eq_some hfound, hparameters, hne.symm, hshape⟩
  · rintro ⟨e, he, hparameters, hne, hshape⟩
    have hkey : key e.path = key path := (key_eq_iff_of_dynamic hdynamic).mpr ⟨hparameters, hshape⟩
    obtain ⟨first, hfirst, hfile⟩ := h.exists_first he
    rw [hkey] at hfirst
    have hother : file ≠ first.file := hfile ▸ hne.symm
    have hserve := congrArg Prod.fst (h.serve_refused (q := q) hproblems hfirst hother)
    rw [Request.refusal, if_pos hdynamic] at hserve
    exact ⟨first.path, first.file, hserve⟩

/-- **A route with parameters is refused where no address tells it from a route of another source**,
and else only for its looks. In every registry that a row of requests leads to, a well-formed route
with parameters is refused as ambiguous exactly if there is a route of another source with
parameters that matches the same paths, or one that looks the same because a segment of one of the
two is the wildcard itself where the other one has a parameter. In the second case there is a path
that only one of the two matches. -/
theorem register_ambiguous_iff (qs : List Request) {path : Text} (file : Text)
    (hproblems : problems path = []) (hdynamic : Route.isDynamic path = true) :
    let entry : Entry := ⟨path, file⟩
    ((∃ other owner, ((after {} qs).register path file).1 =
        .error (.routeAmbiguous path other file owner)) ↔
      ∃ e ∈ (after {} qs).entries, e.isDynamic = true ∧ e.file ≠ file ∧
        ((∀ url, (e.match? url).isSome = (entry.match? url).isSome) ∨ OnlyLookAlike e.path path)) ∧
    ∀ e : Entry, OnlyLookAlike e.path path →
      ∃ url, (e.match? url).isSome ≠ (entry.match? url).isSome := by
  intro entry
  refine ⟨?_, fun e hlooks ↦ OnlyLookAlike.exists_path (f := entry) hlooks⟩
  rw [register_ambiguous_iff_shape qs hproblems hdynamic]
  have hshape : ∀ e : Entry, shape e.path = shape path ↔
      (∀ url, (e.match? url).isSome = (entry.match? url).isSome) ∨ OnlyLookAlike e.path path :=
    fun e ↦ shape_eq_iff_or (f := entry)
  simp only [hshape]

/-- Another name for the parameter does not make another route. -/
theorem renamed_parameter_refused :
    let r := after {} [⟨"/user/[id]", "a.mtm"⟩]
    let entry : Entry := ⟨"/user/[name]", "b.mtm"⟩
    problems entry.path = [] ∧ entry.isDynamic = true ∧
      (∃ other owner, (r.register entry.path entry.file).1 =
        .error (.routeAmbiguous entry.path other entry.file owner)) ∧
      ∃ e ∈ r.entries, e.isDynamic = true ∧ e.file ≠ entry.file ∧
        ((∀ url, (e.match? url).isSome = (entry.match? url).isSome) ∨
          OnlyLookAlike e.path entry.path) := by
  intro r entry
  have hproblems : problems entry.path = [] := by decide
  have hdynamic : entry.isDynamic = true := by decide
  have hrefused : ∃ other owner, (r.register entry.path entry.file).1 =
      .error (.routeAmbiguous entry.path other entry.file owner) :=
    ⟨"/user/[id]", "a.mtm", by decide⟩
  exact ⟨hproblems, hdynamic, hrefused,
    (register_ambiguous_iff _ entry.file hproblems hdynamic).1.mp hrefused⟩

/-- Where one route has the wildcard as a segment and the other one a parameter, the second one is
refused, although the address `/1/2` leads to it and not to the first one. -/
theorem wildcard_segment_refused :
    ¬∀ (qs : List Request) (path file : Text), problems path = [] → Route.isDynamic path = true →
      ((∃ other owner, ((after {} qs).register path file).1 =
          .error (.routeAmbiguous path other file owner)) ↔
        ∃ e ∈ (after {} qs).entries, e.isDynamic = true ∧ e.file ≠ file ∧
          ∀ url, (e.match? url).isSome = (Entry.match? ⟨path, file⟩ url).isSome) := by
  intro h
  obtain ⟨e, he, -, -, hsame⟩ := (h [⟨"/*/[a]", "a.mtm"⟩] "/[b]/[a]" "b.mtm" (by decide)
    (by decide)).mp ⟨"/*/[a]", "a.mtm", by decide⟩
  have hentries : (after {} [⟨"/*/[a]", "a.mtm"⟩]).entries = [⟨"/*/[a]", "a.mtm"⟩] := by decide
  rw [hentries, List.mem_singleton] at he
  subst he
  exact absurd (hsame "/1/2") (by decide)

end Registry

end Route

end PageCompiler
