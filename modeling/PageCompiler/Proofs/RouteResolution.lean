import PageCompiler.Proofs.RouteOwnership
import PageCompiler.Proofs.Texts

/-!
# Where filled-in routes lead

A route with parameters becomes a path when values are put in for its parameters. Resolving that
path is the way back, and this file tells what it comes to.

On its own the route always matches, and gives back the values that were put in: a parameter is
alone in its segment, so that nothing but a slash in a value could move a boundary. In a registry
other routes have a say. The entries without parameters are asked first, and then those with
parameters in the order in which they were claimed, so that the path leads to the route itself, to a
route claimed before it, or to an entry that is this very path; it always leads somewhere.
-/

namespace PageCompiler

/-! ## Addresses that are paths -/

/-- Whether a text can be one segment of an address: it has no separator in it, and nothing that is
dropped from addresses. -/
def Address.IsSegment (t : Text) : Prop := ∀ c ∈ t, c ∉ ['/', '?', '#', '\t', '\r', '\n']

namespace Address

theorem IsSegment.notMem {t : Text} (h : IsSegment t) {c : Char}
    (hc : c ∈ ['/', '?', '#', '\t', '\r', '\n']) : c ∉ t := fun hmem ↦ h c hmem hc

instance (t : Text) : Decidable (IsSegment t) := inferInstanceAs (Decidable (∀ _ ∈ _, _))

theorem cleaned_of_slash {rest : Text} (htab : '\t' ∉ rest) (hreturn : '\r' ∉ rest)
    (hfeed : '\n' ∉ rest) : cleaned ('/' :: rest) = '/' :: rest := by
  rw [cleaned, List.dropWhile_cons_of_neg (by decide), List.filter_eq_self]
  intro c hc
  rcases List.mem_cons.mp hc with rfl | hc
  · decide
  · have hne : c ≠ '\t' ∧ c ≠ '\r' ∧ c ≠ '\n' :=
      ⟨fun h ↦ htab (h ▸ hc), fun h ↦ hreturn (h ▸ hc), fun h ↦ hfeed (h ▸ hc)⟩
    simp [hne]

theorem withoutScheme_of_slash (rest : Text) : withoutScheme ('/' :: rest) = '/' :: rest := by
  rw [withoutScheme]
  split
  · next c cs after hcut =>
    obtain ⟨heq, -⟩ := (Text.cut?_eq_some_iff (by decide)).mp hcut
    obtain rfl : '/' = c := (List.cons.inj heq).1
    have hletter : isLatinLetter '/' = false := by decide
    exact if_neg (by rw [hletter]; exact Bool.false_ne_true)
  · rfl

/-- **A path is its own address**, provided that it begins with one slash and has nothing in it that
ends a path or is dropped. -/
theorem split_of_slash {rest : Text} (hslash : rest.head? ≠ some '/')
    (hrest : ∀ c ∈ rest, c ∉ ['?', '#', '\t', '\r', '\n']) :
    split ('/' :: rest) = .ok ⟨'/' :: rest, []⟩ := by
  have hclean : cleaned ('/' :: rest) = '/' :: rest :=
    cleaned_of_slash (fun h ↦ hrest _ h (by decide)) (fun h ↦ hrest _ h (by decide))
      (fun h ↦ hrest _ h (by decide))
  have hauthority : authority? ('/' :: rest) = none := by
    rw [authority?, Option.map_eq_none_iff]
    cases rest with
    | nil => rfl
    | cons c cs => exact Text.after?_of_ne (fun h ↦ hslash (congrArg some h)) [] cs
  have hpath : ∀ stop ∈ ['?', '#'], ∀ c ∈ '/' :: rest, (c != stop) = true := by
    intro stop hstop c hc
    rw [bne_iff_ne]
    rintro rfl
    rcases List.mem_cons.mp hc with rfl | hc
    · revert hstop
      decide
    · exact hrest c hc (List.mem_append_left ['\t', '\r', '\n'] hstop)
  have hfragment := List.takeWhile_eq_self_iff.mpr (hpath '#' (by decide))
  have hquery := hpath '?' (by decide)
  rw [split, hclean, withoutScheme_of_slash, hauthority]
  simp only [Option.getD_none, hfragment, List.takeWhile_eq_self_iff.mpr hquery,
    List.dropWhile_eq_nil_iff.mpr hquery]
  rfl

end Address

namespace Route

/-! ## Filling in -/

/-- A segment with the value of its parameter in its place. -/
def fillSegment (value : Text → Text) (segment : Text) : Text :=
  match parameter? segment with
  | some name => value name
  | none => segment

/-- The path that a route becomes when values are put in for its parameters. -/
def Entry.fill (e : Entry) (value : Text → Text) : Text :=
  '/' :: Text.join ['/'] (e.segments.map (fillSegment value))

/-- Whether values may be put in for the parameters of a route: neither they nor the other segments
have anything in them that divides addresses. -/
structure Entry.Admits (e : Entry) (value : Text → Text) : Prop where
  nonempty : ∀ name ∈ e.parameters, value name ≠ []
  values : ∀ name ∈ e.parameters, Address.IsSegment (value name)
  literals : ∀ segment ∈ e.segments, parameter? segment = none → Address.IsSegment segment

theorem segments_join {ts : List Text} (hne : ts ≠ []) (h : ∀ t ∈ ts, t ≠ [] ∧ '/' ∉ t) :
    segments ('/' :: Text.join ['/'] ts) = ts := by
  have hsplit := Text.splitOn_join hne fun t ht ↦ (h t ht).2
  rw [segments, Text.splitOn, if_pos rfl, hsplit, List.filter_cons_of_neg (by decide),
    List.filter_eq_self]
  intro t ht
  simpa using (h t ht).1

theorem ne_nil_of_mem_segments {path segment : Text} (h : segment ∈ segments path) :
    segment ≠ [] := by
  have := (List.mem_filter.mp h).2
  simpa using this

/-- The parameters of a pattern take the values that were put in for them, the later of two with one
name at the place of the first. -/
theorem matchSegments_fill (value : Text → Text) (pattern : List Text) (known : OrderedMap Text) :
    matchSegments pattern (pattern.map (fillSegment value)) known =
      some ((pattern.filterMap parameter?).foldl
        (fun m name ↦ OrderedMap.put name (value name) m) known) := by
  induction pattern generalizing known with
  | nil => rfl
  | cons p ps ih =>
    rw [List.map_cons, matchSegments, fillSegment]
    cases hp : parameter? p with
    | some name =>
      rw [List.filterMap_cons_some hp, List.foldl_cons]
      exact ih _
    | none =>
      rw [List.filterMap_cons_none hp, ← ih]
      exact if_pos rfl

namespace Entry

variable {e : Entry} {value : Text → Text}

theorem mem_parameters {segment name : Text} (hsegment : segment ∈ e.segments)
    (hname : parameter? segment = some name) : name ∈ e.parameters :=
  List.mem_filterMap.mpr ⟨segment, hsegment, hname⟩

theorem Admits.fillSegment (h : e.Admits value) {segment : Text} (hsegment : segment ∈ e.segments) :
    Route.fillSegment value segment ≠ [] ∧ Address.IsSegment (Route.fillSegment value segment) := by
  rw [Route.fillSegment]
  split
  · next name hname =>
    have hmem := mem_parameters hsegment hname
    exact ⟨h.nonempty name hmem, h.values name hmem⟩
  · next hnone => exact ⟨ne_nil_of_mem_segments hsegment, h.literals segment hsegment hnone⟩

theorem segments_ne_nil (hdynamic : e.isDynamic = true) : e.segments ≠ [] := by
  intro hnil
  rw [isDynamic, Route.isDynamic, ← segments, hnil] at hdynamic
  exact absurd hdynamic (by decide)

theorem Admits.segments_fill (h : e.Admits value) (hdynamic : e.isDynamic = true) :
    Route.segments (e.fill value) = e.segments.map (Route.fillSegment value) := by
  refine segments_join (fun hnil ↦ segments_ne_nil hdynamic (List.map_eq_nil_iff.mp hnil)) ?_
  intro t ht
  obtain ⟨segment, hsegment, rfl⟩ := List.mem_map.mp ht
  obtain ⟨hne, hplain⟩ := h.fillSegment hsegment
  exact ⟨hne, hplain.notMem (by decide)⟩

/-- **A route matches what it is filled in to**, and gives back the values. -/
theorem Admits.match?_fill (h : e.Admits value) (hdynamic : e.isDynamic = true) :
    e.match? (e.fill value) =
      some ((distinct e.parameters).map fun name ↦ (name, value name)) := by
  rw [match?, h.segments_fill hdynamic, matchSegments_fill, OrderedMap.foldl_put_eq_map]
  rfl

/-- What a route is filled in to is the path of its own address. -/
theorem Admits.split_fill (h : e.Admits value) (hdynamic : e.isDynamic = true) :
    Address.split (e.fill value) = .ok ⟨e.fill value, []⟩ := by
  apply Address.split_of_slash
  · obtain ⟨first, rest, hsegments⟩ := List.exists_cons_of_ne_nil (segments_ne_nil hdynamic)
    obtain ⟨hne, hplain⟩ := h.fillSegment (hsegments ▸ List.mem_cons_self)
    obtain ⟨c, cs, hfirst⟩ := List.exists_cons_of_ne_nil hne
    have hc : c ≠ '/' := by
      rintro rfl
      exact hplain.notMem (by decide) (hfirst ▸ List.mem_cons_self)
    rw [hsegments, List.map_cons, hfirst]
    cases rest with
    | nil => simpa [Text.join] using hc
    | cons second more => simpa [Text.join] using hc
  · intro c hc hmem
    rcases Text.mem_of_mem_join hc with hslash | ⟨t, ht, hct⟩
    · obtain rfl := List.mem_singleton.mp hslash
      exact absurd hmem (by decide)
    · obtain ⟨segment, hsegment, rfl⟩ := List.mem_map.mp ht
      exact (h.fillSegment hsegment).2 c hct (List.mem_cons_of_mem _ hmem)

end Entry

/-! ## Resolving -/

namespace Registry

variable {r : Registry} {path : Text}

theorem resolve_of_split (hsplit : Address.split path = .ok ⟨path, []⟩) (hne : path ≠ []) :
    r.resolve path = .ok (r.lookup path []) := by
  rw [resolve, hsplit, Except.map, if_neg (by simpa using hne)]
  rfl

theorem lookup_of_static (hnodup : (r.entries.map Entry.path).Nodup) {s : Entry}
    (hs : s ∈ r.entries) (hstatic : s.isDynamic = false) (query : OrderedMap Text) :
    r.lookup s.path query = some ⟨s, [], query⟩ := by
  have hget : r.get? s.path = some s := by
    rw [get?, List.find?_eq_some_iff_append]
    obtain ⟨front, back, heq⟩ := List.append_of_mem hs
    refine ⟨by simp, front, back, heq, fun other hother ↦ ?_⟩
    rw [heq, List.map_append, List.map_cons, List.nodup_middle, List.nodup_cons] at hnodup
    have hne : other.path ≠ s.path := fun h ↦
      hnodup.1 (List.mem_append_left _ (h ▸ List.mem_map_of_mem hother))
    simpa using hne
  rw [lookup, hget]
  simp only [hstatic, Bool.false_eq_true, if_false]

theorem lookup_of_dynamic (h : ∀ s ∈ r.entries, s.path = path → s.isDynamic = true)
    (query : OrderedMap Text) : r.lookup path query = r.dynamicMatch path query := by
  rw [lookup]
  split
  · next s hget =>
    have hpath : s.path = path := by simpa using List.find?_some hget
    exact if_pos (h s (List.mem_of_find?_eq_some hget) hpath)
  · rfl

/-- Where a route with parameters matches, the first such route does that was claimed. -/
theorem exists_dynamicMatch (hstep : r.dynamic = r.entries.filter Entry.isDynamic) {e : Entry}
    (he : e ∈ r.entries) (hdynamic : e.isDynamic = true) (hmatch : (e.match? path).isSome = true)
    (query : OrderedMap Text) :
    ∃ before d later parameters, r.entries = before ++ d :: later ∧ e ∈ d :: later ∧
      d.isDynamic = true ∧ d.match? path = some parameters ∧
      (∀ other ∈ before, other.isDynamic = true → other.match? path = none) ∧
      r.dynamicMatch path query = some ⟨d, parameters, query⟩ := by
  -- The entries that answer, among all of them: the first one is where they are cut.
  let answers : Entry → Bool := fun d ↦ d.isDynamic && (d.match? path).isSome
  have hsome : (r.entries.find? answers).isSome = true :=
    List.find?_isSome.mpr ⟨e, he, by simp [answers, hdynamic, hmatch]⟩
  obtain ⟨d, hd⟩ := Option.isSome_iff_exists.mp hsome
  obtain ⟨hanswers, before, later, heq, hbefore⟩ := List.find?_eq_some_iff_append.mp hd
  obtain ⟨hdynamic', hmatch'⟩ := Bool.and_eq_true_iff.mp hanswers
  obtain ⟨parameters, hparameters⟩ := Option.isSome_iff_exists.mp hmatch'
  have hnone : ∀ other ∈ before, other.isDynamic = true → other.match? path = none := by
    intro other hother hdyn
    have := hbefore other hother
    simpa [answers, hdyn] using this
  refine ⟨before, d, later, parameters, heq, ?_, hdynamic', hparameters, hnone, ?_⟩
  · rw [heq] at he
    rcases List.mem_append.mp he with hearly | hlate
    · rw [hnone e hearly hdynamic] at hmatch
      exact absurd hmatch Bool.false_ne_true
    · exact hlate
  · rw [dynamicMatch, hstep, heq, List.filter_append, List.filter_cons_of_pos hdynamic',
      List.findSome?_append]
    have hearly : (before.filter Entry.isDynamic).findSome? (fun entry ↦
        (entry.match? path).map fun parameters ↦ (⟨entry, parameters, query⟩ : Match)) = none := by
      rw [List.findSome?_eq_none_iff]
      intro other hother
      obtain ⟨hother, hdyn⟩ := List.mem_filter.mp hother
      rw [hnone other hother hdyn, Option.map_none]
    rw [hearly, Option.none_or, List.findSome?_cons, hparameters]
    rfl

/-- **A route that is filled in leads somewhere.** In every registry that a row of requests leads
to, a route with parameters matches each path it is filled in to and gives back the values. The path
resolves to the entry without parameters that is this path, if there is one, and otherwise to the
first entry with parameters that matches it, which is the route itself or one claimed before it. -/
theorem filled_route_resolves (qs : List Request) {e : Entry} {value : Text → Text}
    (he : e ∈ (after {} qs).entries) (hdynamic : e.isDynamic = true) (h : e.Admits value) :
    e.match? (e.fill value) =
      some ((distinct e.parameters).map fun name ↦ (name, value name)) ∧
    (∀ s ∈ (after {} qs).entries, s.path = e.fill value → s.isDynamic = false →
      (after {} qs).resolve (e.fill value) = .ok (some ⟨s, [], []⟩)) ∧
    ((∀ s ∈ (after {} qs).entries, s.path = e.fill value → s.isDynamic = true) →
      ∃ before d later parameters, (after {} qs).entries = before ++ d :: later ∧
        e ∈ d :: later ∧ d.isDynamic = true ∧ d.match? (e.fill value) = some parameters ∧
        (∀ other ∈ before, other.isDynamic = true → other.match? (e.fill value) = none) ∧
        (after {} qs).resolve (e.fill value) = .ok (some ⟨d, parameters, []⟩)) := by
  have hmatch := h.match?_fill hdynamic
  have hresolve : (after {} qs).resolve (e.fill value) =
      .ok ((after {} qs).lookup (e.fill value) []) :=
    resolve_of_split (h.split_fill hdynamic) (List.cons_ne_nil _ _)
  rw [hresolve]
  refine ⟨hmatch, fun s hs hpath hstatic ↦ ?_, fun hall ↦ ?_⟩
  · have hnodup : ((after {} qs).entries.map Entry.path).Nodup := by
      rw [paths_after]
      exact nodup_distinct _
    rw [← hpath, lookup_of_static hnodup hs hstatic]
  · rw [lookup_of_dynamic hall]
    obtain ⟨before, d, later, parameters, heq, hmem, hd, hparameters, hbefore, hfound⟩ :=
      exists_dynamicMatch (reflects_after qs).inStep he hdynamic (by rw [hmatch]; rfl) []
    exact ⟨before, d, later, parameters, heq, hmem, hd, hparameters, hbefore,
      congrArg Except.ok hfound⟩

/-- A number is put in for the name of a user, and another route with that number was claimed
before. -/
theorem overlapping_route_resolves :
    let r := after {} [⟨"/[kind]/7", "a"⟩, ⟨"/user/[id]", "b"⟩]
    let e : Entry := ⟨"/user/[id]", "b"⟩
    e ∈ r.entries ∧ e.isDynamic = true ∧ e.Admits (fun _ ↦ "7") ∧
      e.fill (fun _ ↦ "7") = "/user/7" ∧ e.match? "/user/7" = some [(("id" : Text), ("7" : Text))] ∧
      ∃ before d later parameters, r.entries = before ++ d :: later ∧
        e ∈ d :: later ∧ d.isDynamic = true ∧ d.match? "/user/7" = some parameters ∧
        (∀ other ∈ before, other.isDynamic = true → other.match? "/user/7" = none) ∧
        r.resolve "/user/7" = .ok (some ⟨d, parameters, []⟩) := by
  intro r e
  have he : e ∈ r.entries := by decide
  have hdynamic : e.isDynamic = true := by decide
  have h : e.Admits (fun _ ↦ "7") := ⟨by decide, by decide, by decide⟩
  have hfill : e.fill (fun _ ↦ "7") = "/user/7" := by decide
  obtain ⟨hmatch, -, hleads⟩ := filled_route_resolves _ he hdynamic h
  rw [hfill] at hmatch hleads
  exact ⟨he, hdynamic, h, hfill, hmatch, hleads (by decide)⟩

end Registry

end Route

end PageCompiler
