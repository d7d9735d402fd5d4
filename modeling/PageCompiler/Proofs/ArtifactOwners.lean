import PageCompiler.Proofs.WrittenArtifacts

/-!
# Who owns an artifact

A page has a document and perhaps a script file, and it gets both names or none. A name goes to the
first page that asks for it, but a page that is refused one of its names gives up the other too, so
that a later page may have it. Whether a page is served therefore depends on which of the pages
before it were served themselves, and no comparison of two pages tells.

What is told here is a row of deliveries, in whatever order the compilations ended: after each of
them the names that are taken are those of the pages that were served, each with its page
(`Build.Ledger`), as long as no artifact that is to be written fails to be. From this follows who is
served, what the others are told, and that they leave everything as it was.
-/

namespace PageCompiler

namespace Build

/-- Whether a delivery is written without fail, if it is written at all. -/
def Writes (config : BuildConfig) (write : Bool) (b : Build) : Delivery → Prop
  | .compiled page => write = true → b.clash? page = none →
      ∃ paths, (page.write config.outputDirectory b.tree).2 = .ok paths
  | .rejected _ _ => True

/-- Whether all deliveries are written without fail. -/
def WritesAll (config : BuildConfig) (write : Bool) : Build → List Delivery → Prop
  | _, [] => True
  | b, d :: rest => b.Writes config write d ∧ WritesAll config write (deliver config write b d) rest

/-- Whether a page was served: its file succeeded with it. -/
def Serves (b : Build) (page : Compiled) : Prop := Succeeds b.results page.file page

variable {config : BuildConfig} {write : Bool} {b : Build} {d : Delivery} {page : Compiled}

theorem writesAll_append {front back : List Delivery} :
    WritesAll config write b (front ++ back) ↔
      WritesAll config write b front ∧
        WritesAll config write (deliverAll config write b front) back := by
  induction front generalizing b with
  | nil => simp [WritesAll, deliverAll]
  | cons d rest ih =>
    rw [List.cons_append, WritesAll, WritesAll, ih, and_assoc]
    rfl

/-! ## One delivery -/

/-- Whether a page is refused for an artifact of another file: that is its error, and nothing else
has changed. -/
structure Refuses (b : Build) (page : Compiled) (name owner : Text) (after : Build) : Prop where
  clash : b.clash? page = some (name, owner)
  results : after.results = OrderedMap.put page.file
    { file := page.file, page := some page, errors := [clashError page.file name owner] } b.results
  outputs : after.outputs = b.outputs
  written : after.written = b.written
  tree : after.tree = b.tree

/-- Whether a page is accepted: it succeeded, and its artifacts are its own. -/
structure Accepts (b : Build) (page : Compiled) (after : Build) : Prop where
  free : b.clash? page = none
  results : after.results = OrderedMap.put page.file
    { file := page.file, page := some page } b.results
  outputs : after.outputs = (b.own page).outputs

theorem refuses_or_accepts (h : b.Writes config write (.compiled page)) :
    (∃ name owner, b.Refuses page name owner (deliver config write b (.compiled page))) ∨
      b.Accepts page (deliver config write b (.compiled page)) := by
  have hrecorded := recorded_record config write b page.file (.ok page)
  change Recorded config write b page.file (.ok page) (deliver config write b (.compiled page))
    at hrecorded
  generalize deliver config write b (.compiled page) = after at hrecorded ⊢
  cases hrecorded with
  | abandoned _ _ hnone => exact absurd rfl (hnone page)
  | @clash _ name owner hclash =>
    exact .inl ⟨name, owner, hclash, OrderedMap.put_put _ _ _ _, rfl, rfl, rfl⟩
  | unasked hfree _ => exact .inr ⟨hfree, rfl, rfl⟩
  | written hfree _ _ => exact .inr ⟨hfree, rfl, rfl⟩
  | unwritten hfree hwrite herror _ =>
    obtain ⟨paths, hpaths⟩ := h hwrite hfree
    rw [herror] at hpaths
    cases hpaths
  | nowhere hfree hwrite herror _ =>
    obtain ⟨paths, hpaths⟩ := h hwrite hfree
    rw [herror] at hpaths
    cases hpaths

theorem Refuses.not_serves {name owner : Text} {after : Build}
    (h : b.Refuses page name owner after) : ¬ after.Serves page := by
  rintro ⟨r, hr, -, herrors⟩
  rw [h.results, OrderedMap.get?_put_self] at hr
  obtain rfl := Option.some.inj hr
  exact absurd herrors (List.cons_ne_nil _ _)

theorem Accepts.serves {after : Build} (h : b.Accepts page after) : after.Serves page := by
  refine ⟨{ file := page.file, page := some page }, ?_, rfl, rfl⟩
  rw [h.results, OrderedMap.get?_put_self]

theorem serves_iff_free (h : b.Writes config write (.compiled page)) :
    (deliver config write b (.compiled page)).Serves page ↔ b.clash? page = none := by
  rcases refuses_or_accepts h with ⟨name, owner, hrefuses⟩ | haccepts
  · rw [hrefuses.clash]
    exact iff_of_false hrefuses.not_serves (Option.some_ne_none _)
  · exact iff_of_true haccepts.serves haccepts.free

theorem serves_deliverAll {ds : List Delivery} (hnew : page.file ∉ ds.map Delivery.file) :
    (deliverAll config write b ds).Serves page ↔ b.Serves page := by
  rw [Serves, Succeeds, get?_results_deliverAll b hnew]
  rfl

theorem serves_deliver (hnew : page.file ≠ d.file) :
    (deliver config write b d).Serves page ↔ b.Serves page := by
  rw [Serves, Succeeds, get?_results_deliver config write b d hnew]
  rfl

/-! ## The ledger -/

/-- Whether the owners of artifacts are accounted for: a name is taken exactly if it is that of an
artifact of a delivered page that was served, and by the file of that page. -/
structure Ledger (ds : List Delivery) (b : Build) : Prop where
  nodup : (OrderedMap.keys b.outputs).Nodup
  owner_iff : ∀ name owner, OrderedMap.get? b.outputs name = some owner ↔
    ∃ page, Delivery.compiled page ∈ ds ∧ b.Serves page ∧ page.file = owner ∧
      name ∈ page.artifactNames

theorem nodup_keys_foldl_put (names : List Text) (owner : Text) {outputs : OrderedMap Text}
    (h : (OrderedMap.keys outputs).Nodup) :
    (OrderedMap.keys (names.foldl (fun m n ↦ OrderedMap.put n owner m) outputs)).Nodup := by
  induction names generalizing outputs with
  | nil => exact h
  | cons name rest ih => exact ih (OrderedMap.nodup_keys_put h name owner)

namespace Ledger

variable {ds : List Delivery}

/-- A page of a file that comes for the first time finds its artifacts free exactly if no page that
was served has one of them. -/
theorem clash?_eq_none_iff (h : Ledger ds b) (hnew : page.file ∉ ds.map Delivery.file) :
    b.clash? page = none ↔ ∀ other, Delivery.compiled other ∈ ds → b.Serves other →
      ∀ name ∈ page.artifactNames, name ∉ other.artifactNames := by
  constructor
  · intro hfree other hmem hserves name hname hother
    have howner := (h.owner_iff name other.file).mpr ⟨other, hmem, hserves, rfl, hother⟩
    have hfile : other.file = page.file := eq_file_of_clash?_eq_none hfree hname howner
    exact hnew (hfile ▸ file_mem hmem)
  · intro hapart
    refine List.findSome?_eq_none_iff.mpr fun name hname ↦ ?_
    cases howner : OrderedMap.get? b.outputs name with
    | none => rfl
    | some owner =>
      obtain ⟨other, hmem, hserves, -, hother⟩ := (h.owner_iff name owner).mp howner
      exact absurd hother (hapart other hmem hserves name hname)

/-- What holds of the pages before holds of them after a delivery that leaves the owners alone and
serves no page. -/
theorem of_unchanged (h : Ledger ds b) (hnew : d.file ∉ ds.map Delivery.file)
    (houtputs : (deliver config write b d).outputs = b.outputs)
    (hnone : ∀ page, d = .compiled page → ¬ (deliver config write b d).Serves page) :
    Ledger (ds ++ [d]) (deliver config write b d) := by
  refine ⟨houtputs ▸ h.nodup, fun name owner ↦ ?_⟩
  rw [houtputs, h.owner_iff]
  constructor
  · rintro ⟨page, hmem, hserves, hrest⟩
    have hne : page.file ≠ d.file := fun heq ↦
      hnew (heq ▸ file_mem hmem)
    exact ⟨page, List.mem_append_left _ hmem, (serves_deliver hne).mpr hserves, hrest⟩
  · rintro ⟨page, hmem, hserves, hrest⟩
    rcases List.mem_append.mp hmem with hmem | hlast
    · have hne : page.file ≠ d.file := fun heq ↦
        hnew (heq ▸ file_mem hmem)
      exact ⟨page, hmem, (serves_deliver hne).mp hserves, hrest⟩
    · exact absurd hserves (hnone page (List.mem_singleton.mp hlast).symm)

theorem of_accepts (h : Ledger ds b) (hnew : page.file ∉ ds.map Delivery.file)
    (haccepts : b.Accepts page (deliver config write b (.compiled page))) :
    Ledger (ds ++ [.compiled page]) (deliver config write b (.compiled page)) := by
  have houtputs : ∀ name, OrderedMap.get? (deliver config write b (.compiled page)).outputs name =
      if name ∈ page.artifactNames then some page.file else OrderedMap.get? b.outputs name := by
    intro name
    rw [haccepts.outputs, own, get?_foldl_put]
  have hother : ∀ other, Delivery.compiled other ∈ ds → other.file ≠ page.file :=
    fun other hmem heq ↦ hnew (heq ▸ file_mem hmem)
  have hapart := (h.clash?_eq_none_iff hnew).mp haccepts.free
  refine ⟨?_, fun name owner ↦ ?_⟩
  · rw [haccepts.outputs]
    exact nodup_keys_foldl_put _ _ h.nodup
  rw [houtputs]
  split_ifs with hname
  · constructor
    · intro howner
      exact ⟨page, List.mem_append_right _ (List.mem_singleton_self _), haccepts.serves,
        Option.some.inj howner, hname⟩
    · rintro ⟨other, hmem, hserves, rfl, hothers⟩
      rcases List.mem_append.mp hmem with hmem | hlast
      · have hserved := (serves_deliver (d := .compiled page) (hother other hmem)).mp hserves
        exact absurd hothers (hapart other hmem hserved name hname)
      · obtain rfl := Delivery.compiled.inj (List.mem_singleton.mp hlast)
        rfl
  · rw [h.owner_iff]
    constructor
    · rintro ⟨other, hmem, hserves, hrest⟩
      exact ⟨other, List.mem_append_left _ hmem,
        (serves_deliver (d := .compiled page) (hother other hmem)).mpr hserves, hrest⟩
    · rintro ⟨other, hmem, hserves, hfile, hothers⟩
      rcases List.mem_append.mp hmem with hmem | hlast
      · exact ⟨other, hmem,
          (serves_deliver (d := .compiled page) (hother other hmem)).mp hserves, hfile, hothers⟩
      · obtain rfl := Delivery.compiled.inj (List.mem_singleton.mp hlast)
        exact absurd hothers hname

/-- **A delivery keeps the ledger.** -/
theorem step (h : Ledger ds b) (hnew : d.file ∉ ds.map Delivery.file)
    (hwrites : b.Writes config write d) : Ledger (ds ++ [d]) (deliver config write b d) := by
  cases d with
  | rejected file problem => exact h.of_unchanged hnew rfl fun page hpage ↦ by cases hpage
  | compiled page =>
    rcases refuses_or_accepts hwrites with ⟨name, owner, hrefuses⟩ | haccepts
    · refine h.of_unchanged hnew hrefuses.outputs fun other hother ↦ ?_
      obtain rfl := Delivery.compiled.inj hother
      exact hrefuses.not_serves
    · exact h.of_accepts hnew haccepts

end Ledger

theorem ledger_deliverAll (hempty : b.outputs = []) {ds : List Delivery}
    (hfiles : (ds.map Delivery.file).Nodup) (hwrites : WritesAll config write b ds) :
    Ledger ds (deliverAll config write b ds) := by
  induction ds using List.reverseRecOn with
  | nil =>
    refine ⟨?_, fun name owner ↦ ?_⟩
    · rw [deliverAll, List.foldl_nil, hempty]
      exact List.nodup_nil
    · rw [deliverAll, List.foldl_nil, hempty]
      simp [OrderedMap.get?]
  | append_singleton ds d ih =>
    rw [List.map_append, List.map_singleton, ← List.concat_eq_append, List.nodup_concat] at hfiles
    obtain ⟨hwrites, hlast, -⟩ := writesAll_append.mp hwrites
    rw [deliverAll_append]
    exact (ih hfiles.2 hwrites).step hfiles.1 hlast

/-! ## First come, first served -/

/-- What becomes of a delivery, given the deliveries before it: the builds are those right before
and right after it, and the one at the end. -/
structure ServedInTurn (front : List Delivery) (d : Delivery) (before after last : Build) :
    Prop where
  /-- A page is served exactly if no page that was served before it has an artifact of one of its
  names. -/
  served_iff : ∀ page, d = .compiled page →
    (last.Serves page ↔ ∀ other, Delivery.compiled other ∈ front → last.Serves other →
      ∀ name ∈ page.artifactNames, name ∉ other.artifactNames)
  /-- A page that is not served has one error, which tells an artifact and who owns it. -/
  error : ∀ page, d = .compiled page → ¬ last.Serves page →
    ∃ name ∈ page.artifactNames, ∃ owner, OrderedMap.get? before.outputs name = some owner ∧
      OrderedMap.get? last.results page.file = some
        { file := page.file, page := some page, errors := [clashError page.file name owner] }
  /-- A page that is not served changes neither the owners nor what was written nor the files. -/
  unchanged : ∀ page, d = .compiled page → ¬ last.Serves page →
    after.outputs = before.outputs ∧ after.written = before.written ∧ after.tree = before.tree
  /-- No name is taken twice. -/
  nodup : (OrderedMap.keys after.outputs).Nodup
  /-- The names that are taken are those of the pages served so far, each taken by its page. -/
  owner_iff : ∀ name owner, OrderedMap.get? after.outputs name = some owner ↔
    ∃ page, Delivery.compiled page ∈ front ++ [d] ∧ last.Serves page ∧ page.file = owner ∧
      name ∈ page.artifactNames

/-- A delivery is served in its turn, as far as can be told right after it. -/
theorem Ledger.servedInTurn {front : List Delivery} (h : Ledger front b)
    (hnew : d.file ∉ front.map Delivery.file) (hwrites : b.Writes config write d) :
    ServedInTurn front d b (deliver config write b d) (deliver config write b d) := by
  have hafter := h.step hnew hwrites
  refine ⟨?_, ?_, ?_, hafter.nodup, hafter.owner_iff⟩
  · rintro page rfl
    have hothers : ∀ other, Delivery.compiled other ∈ front →
        ((deliver config write b (.compiled page)).Serves other ↔ b.Serves other) := by
      intro other hother
      apply serves_deliver
      intro heq
      exact hnew (heq ▸ file_mem hother)
    rw [serves_iff_free hwrites, h.clash?_eq_none_iff hnew]
    refine forall_congr' fun other ↦ forall_congr' fun hother ↦ ?_
    rw [hothers other hother]
  · rintro page rfl hnot
    obtain ⟨name, owner, hrefuses⟩ := (refuses_or_accepts hwrites).resolve_right
      fun haccepts ↦ hnot haccepts.serves
    obtain ⟨hname, howner⟩ := mem_artifactNames_of_clash? hrefuses.clash
    refine ⟨name, hname, owner, howner, ?_⟩
    rw [hrefuses.results, OrderedMap.get?_put_self]
  · rintro page rfl hnot
    obtain ⟨name, owner, hrefuses⟩ := (refuses_or_accepts hwrites).resolve_right
      fun haccepts ↦ hnot haccepts.serves
    exact ⟨hrefuses.outputs, hrefuses.written, hrefuses.tree⟩

theorem ServedInTurn.deliverAll {front back : List Delivery} {before after : Build}
    (h : ServedInTurn front d before after after)
    (hnew : ∀ file ∈ (front ++ [d]).map Delivery.file, file ∉ back.map Delivery.file) :
    ServedInTurn front d before after (deliverAll config write after back) := by
  have hserves : ∀ page, Delivery.compiled page ∈ front ++ [d] →
      ((Build.deliverAll config write after back).Serves page ↔ after.Serves page) :=
    fun page hmem ↦ serves_deliverAll (hnew _ (file_mem hmem))
  have hmem : ∀ page, d = .compiled page → Delivery.compiled page ∈ front ++ [d] := by
    rintro page rfl
    exact List.mem_append_right _ (List.mem_singleton_self _)
  refine ⟨?_, ?_, ?_, h.nodup, ?_⟩
  · intro page hpage
    rw [hserves page (hmem page hpage), h.served_iff page hpage]
    refine forall_congr' fun other ↦ forall_congr' fun hother ↦ ?_
    rw [hserves other (List.mem_append_left _ hother)]
  · intro page hpage hnot
    rw [hserves page (hmem page hpage)] at hnot
    rw [get?_results_deliverAll after (hnew _ (file_mem (hmem page hpage)))]
    exact h.error page hpage hnot
  · intro page hpage hnot
    rw [hserves page (hmem page hpage)] at hnot
    exact h.unchanged page hpage hnot
  · intro name owner
    rw [h.owner_iff]
    refine exists_congr fun page ↦ and_congr_right fun hpage ↦ ?_
    rw [hserves page hpage]

/-- **Artifacts go to the first page that is served.** Deliveries of different files, in any order,
to a build where nothing has an owner yet: unless an artifact that is to be written fails to be,
each of them is served in its turn. -/
theorem deliveries_served_in_turn (config : BuildConfig) (write : Bool) {b : Build}
    (hempty : b.outputs = []) {front back : List Delivery} {d : Delivery}
    (hfiles : ((front ++ d :: back).map Delivery.file).Nodup)
    (hwrites : WritesAll config write b (front ++ d :: back)) :
    ServedInTurn front d (deliverAll config write b front)
      (deliverAll config write b (front ++ [d]))
      (deliverAll config write b (front ++ d :: back)) := by
  have hsplit : front ++ d :: back = (front ++ [d]) ++ back := by simp
  rw [hsplit, List.map_append, List.nodup_append] at hfiles
  obtain ⟨hfront, -, hapart⟩ := hfiles
  rw [List.map_append, List.map_singleton, ← List.concat_eq_append, List.nodup_concat] at hfront
  obtain ⟨hwrites, hlast, -⟩ := writesAll_append.mp hwrites
  have hledger := ledger_deliverAll hempty hfront.2 hwrites
  have hturn := hledger.servedInTurn hfront.1 hlast
  rw [hsplit, deliverAll_append b (front ++ [d]), deliverAll_append b front]
  exact hturn.deliverAll fun file hfile hlater ↦ hapart file hfile file hlater rfl

def pageWithScript (file document script : Text) : Compiled where
  file
  tokens := []
  component := { file, fields := [] }
  mode := { kind := .custom, file := some script }
  script := "// " ++ file
  template := {}
  html := "<!-- " ++ file ++ " -->"
  outputName := document
  warnings := []

/-- A page whose script another page asked for in vain is served: the other one was refused for its
document, which a third page has. -/
theorem refused_page_takes_no_script :
    let first := pageWithScript "a.mtm" "index.html" "js/app.js"
    let second := pageWithScript "b.mtm" "index.html" "b.js"
    let third := pageWithScript "c.mtm" "c.html" "b.js"
    let last :=
      deliverAll {} true { tree := {} } [.compiled first, .compiled second, .compiled third]
    last.Serves first ∧ ¬ last.Serves second ∧ last.Serves third := by
  intro first second third last
  have hfiles : ([Delivery.compiled first, .compiled second, .compiled third].map
      Delivery.file).Nodup := by decide
  have hwrites : WritesAll {} true { tree := {} }
      [.compiled first, .compiled second, .compiled third] := by
    refine ⟨fun _ _ ↦ ⟨[Path.ofText "dist/index.html", Path.ofText "dist/js/app.js"], ?_⟩,
      fun _ hfree ↦ absurd hfree ?_,
      fun _ _ ↦ ⟨[Path.ofText "dist/c.html", Path.ofText "dist/b.js"], ?_⟩, trivial⟩
    · decide +kernel
    · decide +kernel
    · decide +kernel
  have hfirst : last.Serves first := by
    have hturn := @deliveries_served_in_turn {} true { tree := {} } rfl []
      [.compiled second, .compiled third] (.compiled first) hfiles hwrites
    exact (hturn.served_iff first rfl).mpr fun _ hmem ↦ absurd hmem List.not_mem_nil
  have hsecond : ¬ last.Serves second := by
    have hturn := @deliveries_served_in_turn {} true { tree := {} } rfl [.compiled first]
      [.compiled third] (.compiled second) hfiles hwrites
    intro hserves
    have hapart := (hturn.served_iff second rfl).mp hserves first (List.mem_singleton_self _) hfirst
    exact hapart "index.html" (by decide) (by decide)
  refine ⟨hfirst, hsecond, ?_⟩
  have hturn := @deliveries_served_in_turn {} true { tree := {} } rfl
    [.compiled first, .compiled second] [] (.compiled third) hfiles hwrites
  refine (hturn.served_iff third rfl).mpr fun other hmem hserves ↦ ?_
  rcases List.mem_cons.mp hmem with heq | hmem
  · obtain rfl := Delivery.compiled.inj heq
    decide
  · obtain rfl := Delivery.compiled.inj (List.mem_singleton.mp hmem)
    exact absurd hserves hsecond

end Build

end PageCompiler
