import PageCompiler.Import.Resolution
import PageCompiler.Proofs.OrderedMaps
import PageCompiler.Proofs.Texts

/-!
# Where imports are found

An import that is not the name of a package is looked for at a row of candidates, and the first one
that is a file is what it stands for. The row is told here by how imports are written
(`ImportRules.LooksIn`): which places come into question, in which order the aliases are tried, and
which candidates there are at a place (`ImportRules.candidates`).

The search asks about one candidate after the other. There is one thing it cannot ask about, a path
that is too long, and it does not go on behind one (`ImportRules.search_stopped`). So the law that
an import is found exactly if one of the candidates is a file (`ImportRules.FindsFirst`) holds
exactly as long as no candidate in front of the first file is too long.
-/

namespace PageCompiler

/-! ## Asking about a path -/

namespace FileTree

variable {tree : FileTree} {path : Path}

/-- Whether a path, or a component on the way along it, is too long to be asked about. -/
def TooLong (tree : FileTree) (path : Path) : Prop := tree.locate path = .error .nameTooLong

instance (tree : FileTree) (path : Path) : Decidable (tree.TooLong path) :=
  inferInstanceAs (Decidable (tree.locate path = .error .nameTooLong))

theorem askFile_of_tooLong (h : tree.TooLong path) :
    tree.askFile path = .error ⟨.nameTooLong, path.toText⟩ := by
  rw [askFile, ask, h]
  rfl

theorem askFile_of_not_tooLong (h : ¬tree.TooLong path) :
    tree.askFile path = .ok (tree.isFile path) := by
  rw [askFile, ask, isFile, find?]
  cases hlocate : tree.locate path with
  | ok location => rfl
  | error fault =>
    cases fault with
    | nameTooLong => exact absurd hlocate h
    | _ => rfl

theorem isFile_of_tooLong (h : tree.TooLong path) : tree.isFile path = false := by
  rw [isFile, find?, h]
  rfl

end FileTree

namespace ImportRules

/-! ## The documented places -/

/-- What the asterisk at the end of an alias stands for in a path. An alias without one stands for
itself only. -/
def Captures (pattern path captured : Text) : Prop :=
  (∃ start, pattern = start ++ ['*'] ∧ path = start ++ captured) ∨
    ¬['*'] <:+ pattern ∧ path = pattern ∧ captured = []

/-- A target with a text for each of its asterisks. -/
def filled (captured target : Text) : Text :=
  target.flatMap fun c ↦ if c = '*' then captured else [c]

/-- The aliases in the order in which they are tried: those that were given, and then the default
ones under other names. -/
def aliasesInOrder (aliases : OrderedMap (List Text)) : List (Text × List Text) :=
  aliases ++ defaultAliases.filter fun entry ↦ entry.1 ∉ OrderedMap.keys aliases

/-- Whether an import is written relative to the importing file. -/
def WrittenRelative (path : Text) : Prop := ("./" : Text) <+: path ∨ ("../" : Text) <+: path

/-- The places where an import is looked for, by the way it is written. The name of a package has
none. -/
inductive LooksIn (base : Path) (aliases : OrderedMap (List Text)) (path file : Text) :
    List Path → Prop
  /-- In the directory of the importing file, or of the project when there is none. -/
  | relative (h : WrittenRelative path) : LooksIn base aliases path file
    [(if file = [] then base else (Path.ofText file).parent).appendText path]
  /-- At the targets of the first alias that matches. -/
  | aliased {front back : List (Text × List Text)} {pattern captured : Text} {targets : List Text}
    (h : ¬WrittenRelative path)
    (split : aliasesInOrder aliases = front ++ (pattern, targets) :: back)
    (first : ∀ entry ∈ front, ∀ captured, ¬Captures entry.1 path captured)
    (captures : Captures pattern path captured) : LooksIn base aliases path file
      (targets.map fun target ↦ base.appendText (filled captured target))
  /-- Below the directory of the project. -/
  | absolute (h : ¬WrittenRelative path)
    (none : ∀ entry ∈ aliasesInOrder aliases, ∀ captured, ¬Captures entry.1 path captured)
    (slash : ("/" : Text) <+: path) :
    LooksIn base aliases path file [base.appendText (path.dropWhile (· == '/'))]

/-- The candidates at a row of places: at each the place itself, then the place with each extension,
then an index file with each extension below it. -/
def candidates (extensions : List Text) (places : List Path) : List Path :=
  places.flatMap fun place ↦
    [place] ++ extensions.map (fun extension ↦ Path.ofText (place.toText ++ extension)) ++
      extensions.map fun extension ↦ place.append (Path.ofText ("index" ++ extension))

/-! ## The places that are searched -/

theorem capture?_eq_some_iff {pattern path captured : Text} :
    capture? pattern path = some captured ↔ Captures pattern path captured := by
  rw [capture?, Captures]
  cases hbefore : Text.before? ['*'] pattern with
  | some start =>
    obtain rfl := Text.before?_eq_some_iff.mp hbefore
    dsimp only
    rw [Text.after?_eq_some_iff]
    simp
  | none =>
    have hnone : ¬['*'] <:+ pattern := fun hends ↦ by
      obtain ⟨start, hstart⟩ := hends
      rw [Text.before?_eq_some_iff.mpr hstart.symm] at hbefore
      cases hbefore
    have hnostart : ¬∃ start, pattern = start ++ ['*'] ∧ path = start ++ captured := by
      rintro ⟨start, rfl, -⟩
      exact hnone (List.suffix_append _ _)
    dsimp only
    rw [or_iff_right hnostart, and_iff_right hnone]
    by_cases heq : path = pattern
    · simp [heq, eq_comm]
    · simp [heq]

theorem capture?_eq_none_iff {pattern path : Text} :
    capture? pattern path = none ↔ ∀ captured, ¬Captures pattern path captured := by
  simp only [Option.eq_none_iff_forall_ne_some, ne_eq, capture?_eq_some_iff]

theorem replace_asterisks (captured target : Text) :
    Text.replace ['*'] captured target = filled captured target := by
  rw [Text.replace]
  generalize hread : (fun u ↦ (Text.after? ['*'] u).map ((), ·) : Reader Unit) = read
  have hreads : ∀ u, read u = (Text.after? ['*'] u).map ((), ·) := fun u ↦ (congrFun hread u).symm
  induction target with
  | nil =>
    rw [Text.substitute, Text.pieces]
    rfl
  | cons c target ih =>
    rw [filled, List.flatMap_cons, ← filled, ← ih]
    by_cases hc : c = '*'
    · subst hc
      have hfound : read (['*'] ++ target) = some ((), target) := by
        rw [hreads, Text.after?_append, Option.map_some]
      rw [if_pos rfl]
      exact Text.substitute_append_of_some (List.cons_ne_nil _ _) hfound _
    · have hnone : read (c :: target) = none := by
        rw [hreads, Text.after?_of_ne hc, Option.map_none]
      rw [if_neg hc]
      exact Text.substitute_cons_of_none hnone _

/-- Putting entries of different names into a map appends those it does not have. -/
theorem foldl_putNew {β : Type} (entries m : OrderedMap β)
    (hnodup : (OrderedMap.keys entries).Nodup) :
    entries.foldl (fun m (key, value) ↦ OrderedMap.putNew key value m) m =
      m ++ entries.filter fun entry ↦ entry.1 ∉ OrderedMap.keys m := by
  induction entries generalizing m with
  | nil => rw [List.foldl_nil, List.filter_nil, List.append_nil]
  | cons entry entries ih =>
    obtain ⟨key, value⟩ := entry
    obtain ⟨hkey, hrest⟩ := List.nodup_cons.mp hnodup
    refine (ih (OrderedMap.putNew key value m) hrest).trans ?_
    by_cases hmem : key ∈ OrderedMap.keys m
    · have hput : OrderedMap.putNew key value m = m := if_pos (OrderedMap.contains_iff.mpr hmem)
      rw [hput, List.filter_cons_of_neg (by simpa using hmem)]
    · have hput : OrderedMap.putNew key value m = m ++ [(key, value)] :=
        (if_neg fun h ↦ hmem (OrderedMap.contains_iff.mp h)).trans
          (OrderedMap.put_of_notMem hmem value)
      -- The entry just put has a name that none of the entries behind it has.
      have hfilter : ∀ other ∈ entries,
          decide (other.1 ∉ OrderedMap.keys (m ++ [(key, value)])) =
            decide (other.1 ∉ OrderedMap.keys m) := by
        intro other hother
        have hne : other.1 ≠ key := fun heq ↦
          hkey (OrderedMap.mem_keys.mpr ⟨other.2, heq ▸ hother⟩)
        refine decide_eq_decide.mpr (not_congr ?_)
        rw [OrderedMap.keys_append, List.mem_append]
        exact or_iff_left fun hmem ↦ hne (List.mem_singleton.mp hmem)
      rw [hput, List.filter_congr hfilter, List.filter_cons_of_pos (by simpa using hmem),
        List.append_assoc, List.singleton_append]

theorem aliases_standard (base : Path) (aliases : OrderedMap (List Text)) :
    (standard base aliases).aliases = aliasesInOrder aliases :=
  foldl_putNew defaultAliases aliases (by decide)

variable {base : Path} {aliases : OrderedMap (List Text)} {extensions : List Text}
  {path file : Text} {places : List Path}

theorem aliasTargets?_eq_none_iff {entries : List (Text × List Text)} :
    aliasTargets? entries path = none ↔
      ∀ entry ∈ entries, ∀ captured, ¬Captures entry.1 path captured := by
  rw [aliasTargets?, List.findSome?_eq_none_iff]
  simp only [Option.map_eq_none_iff, capture?_eq_none_iff]

theorem aliasTargets?_eq_some_iff {entries : List (Text × List Text)} {found : List Text} :
    aliasTargets? entries path = some found ↔
      ∃ front pattern targets back captured, entries = front ++ (pattern, targets) :: back ∧
        (∀ entry ∈ front, ∀ captured, ¬Captures entry.1 path captured) ∧
        Captures pattern path captured ∧ targets.map (filled captured) = found := by
  rw [aliasTargets?, List.findSome?_eq_some_iff]
  simp only [Option.map_eq_none_iff, capture?_eq_none_iff, Option.map_eq_some_iff,
    capture?_eq_some_iff, funext (replace_asterisks _)]
  constructor
  · rintro ⟨front, ⟨pattern, targets⟩, back, hsplit, ⟨captured, hcaptures, hfound⟩, hfirst⟩
    exact ⟨front, pattern, targets, back, captured, hsplit, hfirst, hcaptures, hfound⟩
  · rintro ⟨front, pattern, targets, back, captured, hsplit, hfirst, hcaptures, hfound⟩
    exact ⟨front, (pattern, targets), back, hsplit, ⟨captured, hcaptures, hfound⟩, hfirst⟩

theorem isRelative_iff : isRelative path = true ↔ WrittenRelative path := by
  rw [isRelative, Bool.or_eq_true, Text.startsWith_iff, Text.startsWith_iff, WrittenRelative]

/-- The places that are searched are the documented ones. -/
theorem places?_eq_some_iff :
    ({ standard base aliases with extensions } : ImportRules).places? path file = some places ↔
      LooksIn base aliases path file places := by
  have hbase : (standard base aliases).base = base := rfl
  simp only [places?, aliases_standard, hbase, List.isEmpty_iff]
  by_cases hrelative : WrittenRelative path
  · rw [if_pos (isRelative_iff.mpr hrelative), Option.some_inj]
    constructor
    · rintro rfl
      exact .relative hrelative
    · intro h
      cases h with
      | relative => rfl
      | aliased hnot => exact absurd hrelative hnot
      | absolute hnot => exact absurd hrelative hnot
  rw [if_neg fun h ↦ hrelative (isRelative_iff.mp h)]
  cases htargets : aliasTargets? (aliasesInOrder aliases) path with
  | some found =>
    have ⟨front, pattern, targets, back, captured, hsplit, hfirst, hcaptures, hfound⟩ :=
      aliasTargets?_eq_some_iff.mp htargets
    dsimp only
    rw [Option.some_inj, ← hfound, List.map_map]
    constructor
    · rintro rfl
      exact .aliased hrelative hsplit hfirst hcaptures
    · intro h
      cases h with
      | relative hyes => exact absurd hyes hrelative
      | aliased _ hsplit' hfirst' hcaptures' =>
        -- Both are what the search for an alias gives.
        have hsame := aliasTargets?_eq_some_iff.mpr
          ⟨_, _, _, _, _, hsplit', hfirst', hcaptures', rfl⟩
        rw [htargets, Option.some_inj, ← hfound] at hsame
        rw [← List.map_map, hsame, List.map_map]
        rfl
      | absolute _ hnone =>
        rw [aliasTargets?_eq_none_iff.mpr hnone] at htargets
        cases htargets
  | none =>
    have hnone := aliasTargets?_eq_none_iff.mp htargets
    dsimp only
    constructor
    · intro h
      split_ifs at h with hslash
      obtain rfl := Option.some.inj h
      exact .absolute hrelative hnone (Text.startsWith_iff.mp hslash)
    · intro h
      cases h with
      | relative hyes => exact absurd hyes hrelative
      | aliased _ hsplit _ hcaptures =>
        exact absurd hcaptures (hnone _ (hsplit ▸ List.mem_append_cons_self) _)
      | absolute _ _ hslash => rw [if_pos (Text.startsWith_iff.mpr hslash)]

/-! ## The search -/

section Search

variable {tree : FileTree}

/-- Candidates that are no files are passed by and remembered. -/
theorem search_append {before : List Path}
    (h : ∀ b ∈ before, ¬tree.TooLong b ∧ tree.isFile b = false) (rest : List Path) :
    search tree (before ++ rest) =
      (search tree rest).map fun result ↦ (result.1, before.map Path.toText ++ result.2) := by
  induction before with
  | nil =>
    rw [List.nil_append]
    cases search tree rest <;> rfl
  | cons b before ih =>
    obtain ⟨⟨hasked, hnone⟩, hbefore⟩ := List.forall_mem_cons.mp h
    rw [List.cons_append, search, FileTree.askFile_of_not_tooLong hasked, hnone, ih hbefore]
    cases search tree rest <;> rfl

theorem search_found {before after : List Path} {c : Path}
    (h : ∀ b ∈ before, ¬tree.TooLong b ∧ tree.isFile b = false) (hc : tree.isFile c = true) :
    search tree (before ++ c :: after) =
      .ok (some c.toText, (before ++ [c]).map Path.toText) := by
  have hasked : ¬tree.TooLong c := fun hlong ↦ by
    rw [FileTree.isFile_of_tooLong hlong] at hc
    exact Bool.false_ne_true hc
  rw [search_append h, search, FileTree.askFile_of_not_tooLong hasked, hc, List.map_append]
  rfl

/-- The search ends at a candidate that is too long to be asked about. -/
theorem search_stopped {before after : List Path} {c : Path}
    (h : ∀ b ∈ before, ¬tree.TooLong b ∧ tree.isFile b = false) (hc : tree.TooLong c) :
    search tree (before ++ c :: after) = .error ⟨.nameTooLong, c.toText⟩ := by
  rw [search_append h, search, FileTree.askFile_of_tooLong hc]
  rfl

theorem search_missing {cs : List Path}
    (h : ∀ c ∈ cs, ¬tree.TooLong c ∧ tree.isFile c = false) :
    search tree cs = .ok (none, cs.map Path.toText) := by
  have happend := search_append h []
  rw [List.append_nil] at happend
  rw [happend, search]
  exact congrArg (fun searched ↦ Except.ok (none, searched)) (List.append_nil _)

/-- Either no candidate decides the search, or a first one does. -/
theorem exists_decisive (tree : FileTree) (cs : List Path) :
    (∀ c ∈ cs, ¬tree.TooLong c ∧ tree.isFile c = false) ∨
      ∃ before c after, cs = before ++ c :: after ∧
        (∀ b ∈ before, ¬tree.TooLong b ∧ tree.isFile b = false) ∧
        (tree.TooLong c ∨ tree.isFile c = true) := by
  induction cs with
  | nil => exact .inl fun c hc ↦ absurd hc List.not_mem_nil
  | cons c cs ih =>
    by_cases hc : tree.TooLong c ∨ tree.isFile c = true
    · exact .inr ⟨[], c, cs, rfl, fun b hb ↦ absurd hb List.not_mem_nil, hc⟩
    · rw [not_or, Bool.not_eq_true] at hc
      rcases ih with hnone | ⟨before, d, after, rfl, hbefore, hd⟩
      · exact .inl (List.forall_mem_cons.mpr ⟨hc, hnone⟩)
      · exact .inr ⟨c :: before, d, after, rfl, List.forall_mem_cons.mpr ⟨hc, hbefore⟩, hd⟩

end Search

/-! ## The law -/

def notFound (path file : Text) (line : Option Int) (searched : List Text) : Diagnostic :=
  { cause := .importMissing path searched, file := if file = [] then none else some file, line }

/-- The law of the search, for what becomes of an import, whether it has to be found or not. -/
structure FindsFirst (tree : FileTree) (cs : List Path) (path file : Text) (line : Option Int)
    (resolved : Except FileError Resolution) (required : Except ImportError Resolution) : Prop where
  /-- Something is found exactly if a candidate is a file. -/
  found_iff : (∃ r, resolved = .ok r ∧ r.found?.isSome = true) ↔ ∃ c ∈ cs, tree.isFile c = true
  /-- It is the first one, and the candidates were tried up to it. -/
  first : ∀ before c after, cs = before ++ c :: after → (∀ b ∈ before, tree.isFile b = false) →
    tree.isFile c = true →
      let found : Resolution := .file c.toText ((before ++ [c]).map Path.toText)
      resolved = .ok found ∧ required = .ok found
  /-- If there is none, all candidates were tried. -/
  missing : (∀ c ∈ cs, tree.isFile c = false) →
    let searched := cs.map Path.toText
    resolved = .ok (.missing searched) ∧
      required = .error (.missing (notFound path file line searched))

/-- Whether a path that is too long stands behind a file only. -/
def Answered (tree : FileTree) (cs : List Path) : Prop :=
  ∀ before c after, cs = before ++ c :: after → tree.TooLong c → ∃ b ∈ before, tree.isFile b = true

section Law

variable {tree : FileTree} {cs : List Path} {rules : ImportRules} {line : Option Int}

theorem FindsFirst.exists_ok {resolved : Except FileError Resolution}
    {required : Except ImportError Resolution}
    (h : FindsFirst tree cs path file line resolved required) : ∃ r, resolved = .ok r := by
  by_cases hfile : ∃ c ∈ cs, tree.isFile c = true
  · obtain ⟨r, hr, -⟩ := h.found_iff.mpr hfile
    exact ⟨r, hr⟩
  · exact ⟨_, (h.missing fun c hc ↦ Bool.eq_false_iff.mpr fun hyes ↦ hfile ⟨c, hc, hyes⟩).1⟩

theorem eq_of_first {before before' after after' : List Path} {c c' : Path}
    (heq : before ++ c :: after = before' ++ c' :: after')
    (hbefore : ∀ b ∈ before, tree.isFile b = false) (hc : tree.isFile c = true)
    (hbefore' : ∀ b ∈ before', tree.isFile b = false) (hc' : tree.isFile c' = true) :
    before = before' ∧ c = c' := by
  have hfront : ∀ (as : List Path) {bs : List Path} {d : Path},
      (∀ b ∈ bs, tree.isFile b = false) → tree.isFile d = true →
        (bs ++ d :: as).takeWhile (fun b ↦ !tree.isFile b) = bs := by
    intro as bs d hbs hd
    rw [List.takeWhile_append_of_pos fun b hb ↦ by rw [hbs b hb, Bool.not_false],
      List.takeWhile_cons_of_neg (by rw [hd]; decide), List.append_nil]
  have hsame : before = before' := by
    rw [← hfront after hbefore hc, heq, hfront after' hbefore' hc']
  subst hsame
  exact ⟨rfl, (List.cons.inj (List.append_cancel_left heq)).1⟩

theorem answered_of_first {before after : List Path} {c : Path}
    (hbefore : ∀ b ∈ before, ¬tree.TooLong b) (hc : tree.isFile c = true) :
    Answered tree (before ++ c :: after) := by
  intro before' d after' heq hd
  have hne : c ≠ d := by
    rintro rfl
    rw [FileTree.isFile_of_tooLong hd] at hc
    exact Bool.false_ne_true hc
  refine ⟨c, ?_, hc⟩
  rcases List.append_eq_append_iff.mp heq with ⟨more, rfl, hmore⟩ | ⟨more, rfl, hmore⟩
  · cases more with
    | nil => exact absurd (List.cons.inj hmore).1 hne
    | cons first more =>
      obtain ⟨rfl, -⟩ := List.cons.inj hmore
      exact List.mem_append_cons_self
  · cases more with
    | nil => exact absurd (List.cons.inj hmore).1.symm hne
    | cons first more =>
      obtain ⟨rfl, -⟩ := List.cons.inj hmore
      exact absurd hd (hbefore d List.mem_append_cons_self)

/-- An import that is looked for keeps the law, or a path ends the search that is too long. -/
theorem findsFirst_or_stopped (line : Option Int)
    (hresolve : rules.resolve tree path file = (search tree cs).map conclude) :
    (Answered tree cs ∧ FindsFirst tree cs path file line (rules.resolve tree path file)
      (rules.require tree path file line)) ∨
    ¬Answered tree cs ∧ ∃ c ∈ cs, tree.TooLong c ∧
      rules.resolve tree path file = .error ⟨.nameTooLong, c.toText⟩ ∧
      rules.require tree path file line = .error (.file ⟨.nameTooLong, c.toText⟩) := by
  rcases exists_decisive tree cs with hnone | ⟨before, c, after, rfl, hbefore, hc⟩
  · -- No candidate is a file, and each could be asked about.
    have hnoFile : ¬∃ c ∈ cs, tree.isFile c = true := by
      rintro ⟨c, hc, hfile⟩
      exact absurd ((hnone c hc).2.symm.trans hfile) Bool.false_ne_true
    rw [search_missing hnone] at hresolve
    refine .inl ⟨?_, ?_, ?_, fun _ ↦ ⟨hresolve, ?_⟩⟩
    · rintro before c after rfl hc
      exact absurd hc (hnone c List.mem_append_cons_self).1
    · refine iff_of_false ?_ hnoFile
      rintro ⟨r, hr, hfound⟩
      obtain rfl := Except.ok.inj (hresolve.symm.trans hr)
      cases hfound
    · rintro before c after rfl _ hc
      exact absurd ⟨c, List.mem_append_cons_self, hc⟩ hnoFile
    · rw [require, hresolve, notFound]
      cases file <;> rfl
  · rcases hc with hlong | hfile
    · rw [search_stopped hbefore hlong] at hresolve
      refine .inr ⟨fun hanswered ↦ ?_, c, List.mem_append_cons_self, hlong, hresolve, ?_⟩
      · obtain ⟨b, hb, hyes⟩ := hanswered before c after rfl hlong
        exact absurd ((hbefore b hb).2.symm.trans hyes) Bool.false_ne_true
      · rw [require, hresolve]
        rfl
    · have hnoFile : ∀ b ∈ before, tree.isFile b = false := fun b hb ↦ (hbefore b hb).2
      rw [search_found hbefore hfile] at hresolve
      have hrequire : rules.require tree path file line =
          .ok (.file c.toText ((before ++ [c]).map Path.toText)) := by
        rw [require, hresolve]
        rfl
      refine .inl ⟨answered_of_first (fun b hb ↦ (hbefore b hb).1) hfile, ?_, ?_, ?_⟩
      · exact iff_of_true ⟨_, hresolve, rfl⟩ ⟨c, List.mem_append_cons_self, hfile⟩
      · intro before' c' after' heq hbefore' hfile'
        obtain ⟨rfl, rfl⟩ := eq_of_first heq hnoFile hfile hbefore' hfile'
        exact ⟨hresolve, hrequire⟩
      · intro hnone
        exact absurd ((hnone c List.mem_append_cons_self).symm.trans hfile) Bool.false_ne_true

end Law

/-- **An import stands for the first of its candidates that is a file**, unless a path before it is
too long. An import that is not the name of a package is looked for at its places. It is found
exactly if a candidate there is a file; then it stands for the first one, and the candidates up to
that one were tried; otherwise all were, and if the import has to be found, that is reported with
the same paths. All this holds exactly if no candidate that is too long stands in front of the first
file, and if one does, the search ends there with the error of the file system. -/
theorem finds_first_iff_answered (tree : FileTree) (base : Path) (aliases : OrderedMap (List Text))
    (extensions : List Text) (path file : Text) (line : Option Int) :
    let rules : ImportRules := { standard base aliases with extensions }
    ((∃ places, LooksIn base aliases path file places) ∨
      rules.resolve tree path file = .ok (.package path)) ∧
    ∀ places, LooksIn base aliases path file places →
      (FindsFirst tree (candidates extensions places) path file line
          (rules.resolve tree path file) (rules.require tree path file line) ↔
        Answered tree (candidates extensions places)) ∧
      (¬Answered tree (candidates extensions places) →
        ∃ c ∈ candidates extensions places, tree.TooLong c ∧
          rules.resolve tree path file = .error ⟨.nameTooLong, c.toText⟩ ∧
          rules.require tree path file line = .error (.file ⟨.nameTooLong, c.toText⟩)) := by
  intro rules
  constructor
  · cases hplaces : rules.places? path file with
    | none => exact .inr (by rw [resolve, hplaces])
    | some places => exact .inl ⟨places, places?_eq_some_iff.mp hplaces⟩
  · intro places hlooks
    have hresolve : rules.resolve tree path file =
        (search tree (candidates extensions places)).map conclude := by
      rw [resolve, places?_eq_some_iff.mpr hlooks]
      rfl
    rcases findsFirst_or_stopped line hresolve with ⟨hanswered, hlaw⟩ | ⟨hnot, hstopped⟩
    · exact ⟨iff_of_true hlaw hanswered, fun hnot ↦ absurd hanswered hnot⟩
    · refine ⟨iff_of_false (fun hlaw ↦ ?_) hnot, fun _ ↦ hstopped⟩
      obtain ⟨r, hr⟩ := hlaw.exists_ok
      obtain ⟨c, -, -, herror, -⟩ := hstopped
      cases herror.symm.trans hr

/-- A given alias comes in place of the default one, and its second target has the file. -/
theorem given_alias_finds_first :
    let tree : FileTree := { nodes := [(["ui"], .directory), (["ui", "Counter.jsx"], .file [])] }
    let targets : List Text := ["lib/*", "ui/*"]
    let aliases : OrderedMap (List Text) := [("@components/*", targets)]
    let extensions : List Text := [".tsx", ".jsx"]
    let places : List Path := [Path.ofText "lib/Counter", Path.ofText "ui/Counter"]
    let rules : ImportRules := { standard {} aliases with extensions }
    LooksIn {} aliases "@components/Counter" "page.mtm" places ∧
      Answered tree (candidates extensions places) ∧
      FindsFirst tree (candidates extensions places) "@components/Counter" "page.mtm" (some 3)
        (rules.resolve tree "@components/Counter" "page.mtm")
        (rules.require tree "@components/Counter" "page.mtm" (some 3)) := by
  intro tree targets aliases extensions places rules
  have hplaces : (targets.map fun target ↦ Path.appendText {} (filled "Counter" target)) =
      places := by decide
  have hsplit : aliasesInOrder aliases =
      [] ++ (("@components/*" : Text), targets) :: defaultAliases.tail := by decide
  have hlooks : LooksIn {} aliases "@components/Counter" "page.mtm" places := by
    rw [← hplaces]
    refine .aliased (fun h ↦ ?_) hsplit (fun entry hentry ↦ absurd hentry List.not_mem_nil)
      (.inl ⟨"@components/", by decide, by decide⟩)
    exact absurd (isRelative_iff.mpr h) (by decide)
  have hshort : ∀ c ∈ candidates extensions places, ¬tree.TooLong c := by decide +kernel
  have hanswered : Answered tree (candidates extensions places) := fun before c after heq hc ↦
    absurd hc (hshort c (heq ▸ List.mem_append_cons_self))
  obtain ⟨-, hfinds⟩ := finds_first_iff_answered tree {} aliases extensions "@components/Counter"
    "page.mtm" (some 3)
  exact ⟨hlooks, hanswered, (hfinds places hlooks).1.mpr hanswered⟩

/-- A name that is too long for a file is not reported as missing: the search ends with an error. -/
theorem long_name_ends_search :
    ¬∀ (tree : FileTree) (base : Path) (aliases : OrderedMap (List Text)) (extensions : List Text)
      (path file : Text) (line : Option Int) (places : List Path),
      LooksIn base aliases path file places →
        let rules : ImportRules := { standard base aliases with extensions }
        FindsFirst tree (candidates extensions places) path file line
          (rules.resolve tree path file) (rules.require tree path file line) := by
  intro h
  let name : Text := List.replicate 256 'a'
  have hrelative : WrittenRelative ("./" ++ name) := .inl (List.prefix_append _ _)
  obtain ⟨r, hr⟩ := (h {} {} [] [] ("./" ++ name) [] none _ (.relative hrelative)).exists_ok
  have herror : ({ standard {} [] with extensions := [] } : ImportRules).resolve {} ("./" ++ name)
      [] = .error ⟨.nameTooLong, name⟩ := by decide +kernel
  cases herror.symm.trans hr

end ImportRules

end PageCompiler
