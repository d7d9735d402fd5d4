import Mathlib.Logic.Relation
import PageCompiler.Compile
import PageCompiler.Proofs.Texts

/-!
# What writing leaves in a tree of files

Writing the artifacts of a page makes directories and puts files into them, whether all artifacts
can be written or not: it is a row of changes of two kinds, which `FileTree.Change` lists. None of
them takes a directory away, and a file is changed only where an artifact goes. So a path that led
somewhere before leads there afterwards, and what a file holds is what it held, or one of the
artifacts: `FileTree.Receives` says this of the tree before and the tree after. The other way round,
a file that was not there before is an artifact (`FileTree.origin_of_changes`).

Which paths lead to one place is the other question. Below a directory two paths of components that
never lead up end at one place only if they are the same (`FileTree.eq_of_locate`), and
wherever a path leads, its last component stays the last (`FileTree.exists_concat_of_locate`).
-/

namespace PageCompiler

open Relation

/-- Whether a path goes down only: it is relative, and no component leads to the directory above. -/
def Path.IsPlain (p : Path) : Prop := p.root = [] ∧ Path.up ∉ p.parts

variable {l : List Text} {p : Path} {bytes : List UInt8}

namespace FileTree

variable {tree after : FileTree} {location : List Text}

/-! ## Locations -/

theorem lookup_map_of_ne (h : l ≠ location) (node : Node) (nodes : List (List Text × Node)) :
    List.lookup l (nodes.map fun e ↦ if e.1 = location then (location, node) else e) =
      List.lookup l nodes := by
  induction nodes with
  | nil => rfl
  | cons e rest ih =>
    obtain ⟨place, there⟩ := e
    rw [List.map_cons, List.lookup_cons, List.lookup_cons, ih]
    by_cases hplace : place = location
    · rw [if_pos hplace, hplace, beq_false_of_ne h]
    · rw [if_neg hplace]

theorem lookup_map_self (location : List Text) (node : Node) {nodes : List (List Text × Node)}
    (h : nodes.any (·.1 == location) = true) :
    List.lookup location (nodes.map fun e ↦ if e.1 = location then (location, node) else e) =
      some node := by
  induction nodes with
  | nil => cases h
  | cons e rest ih =>
    obtain ⟨place, there⟩ := e
    rw [List.map_cons]
    by_cases hplace : place = location
    · rw [if_pos hplace, List.lookup_cons_self]
    · rw [if_neg hplace, List.lookup_cons, beq_false_of_ne (Ne.symm hplace)]
      rw [List.any_cons, beq_false_of_ne hplace, Bool.false_or] at h
      exact ih h

theorem at?_put_self (h : location ≠ []) (node : Node) :
    (tree.put location node).at? location = some node := by
  rw [at?, if_neg (by simpa using h), put]
  split_ifs with hthere
  · exact lookup_map_self location node hthere
  · rw [List.lookup_append]
    have hnone : List.lookup location tree.nodes = none := by
      rw [List.lookup_eq_none_iff]
      intro e he
      rw [Bool.not_eq_true, List.any_eq_false] at hthere
      rw [bne_iff_ne]
      exact fun heq ↦ hthere e he (beq_iff_eq.mpr heq.symm)
    rw [hnone, List.lookup_cons_self]
    rfl

theorem at?_put_of_ne (h : l ≠ location) (node : Node) :
    (tree.put location node).at? l = tree.at? l := by
  rw [at?, at?, put]
  split_ifs with hroot hthere
  · rfl
  · exact lookup_map_of_ne h node _
  · rw [List.lookup_append, List.lookup_cons, beq_false_of_ne h]
    simp

theorem cwd_put (node : Node) : (tree.put location node).cwd = tree.cwd := by
  rw [put]
  split_ifs <;> rfl

/-! ## Walking -/

theorem walk_cons_eq_ok_iff {start rest : List Text} {p : Text} :
    tree.walk start (p :: rest) = .ok location ↔
      tree.at? start = some .directory ∧ (Utf8.encode p).length ≤ maxComponentBytes ∧
        tree.walk (if p = Path.up then start.dropLast else start ++ [p]) rest = .ok location := by
  rw [walk]
  split
  · next hstart =>
    rw [hstart]
    by_cases hlong : maxComponentBytes < (Utf8.encode p).length
    · simp [if_pos hlong, Nat.not_le_of_lt hlong]
    · simp [if_neg hlong, Nat.le_of_not_lt hlong]
  · next hstart => simp [hstart]
  · next hstart => simp [hstart]

theorem exists_of_walk_append {start front back : List Text}
    (h : tree.walk start (front ++ back) = .ok location) :
    ∃ middle, tree.walk start front = .ok middle ∧ tree.walk middle back = .ok location := by
  induction front generalizing start with
  | nil => exact ⟨start, rfl, h⟩
  | cons p rest ih =>
    obtain ⟨hstart, hlong, hrest⟩ := walk_cons_eq_ok_iff.mp h
    obtain ⟨middle, hmiddle, hlocation⟩ := ih hrest
    exact ⟨middle, walk_cons_eq_ok_iff.mpr ⟨hstart, hlong, hmiddle⟩, hlocation⟩

theorem eq_append_of_walk {start parts : List Text} (hparts : Path.up ∉ parts)
    (h : tree.walk start parts = .ok location) : location = start ++ parts := by
  induction parts generalizing start with
  | nil =>
    rw [List.append_nil]
    exact (Except.ok.inj h).symm
  | cons p rest ih =>
    rw [List.mem_cons, not_or] at hparts
    obtain ⟨-, -, hrest⟩ := walk_cons_eq_ok_iff.mp h
    rw [if_neg (Ne.symm hparts.1)] at hrest
    rw [ih hparts.2 hrest, List.append_assoc, List.singleton_append]

theorem exists_concat_of_walk {start front : List Text} {last : Text} (hlast : last ≠ Path.up)
    (h : tree.walk start (front ++ [last]) = .ok location) :
    ∃ middle, location = middle ++ [last] := by
  obtain ⟨middle, -, hmiddle⟩ := exists_of_walk_append h
  exact ⟨middle, eq_append_of_walk (by simpa using Ne.symm hlast) hmiddle⟩

/-- Where the components of a path start. -/
def base (tree : FileTree) (path : Path) : List Text := if path.isAbsolute then [] else tree.cwd

theorem locate_eq_ok_iff {path : Path} : tree.locate path = .ok location ↔
    '\x00' ∉ path.toText ∧ (Utf8.encode path.toText).length ≤ maxPathBytes ∧
      tree.walk (tree.base path) path.parts = .ok location := by
  have hlocate : tree.locate path = if '\x00' ∈ path.toText then .error .nullCharacter
      else if maxPathBytes < (Utf8.encode path.toText).length then .error .nameTooLong
      else tree.walk (tree.base path) path.parts := by
    rw [locate, base]
    by_cases habsolute : path.isAbsolute = true
    · rw [if_pos habsolute, if_pos habsolute]
    · rw [if_neg habsolute, if_neg habsolute]
  rw [hlocate]
  split_ifs with hnull hlong
  · simp [hnull]
  · simp [Nat.not_le_of_lt hlong]
  · simp [hnull, Nat.le_of_not_lt hlong]

theorem exists_top_of_locate {directory : Path} (hp : p.IsPlain)
    (h : tree.locate (directory.append p) = .ok location) :
    ∃ top, tree.walk (tree.base directory) directory.parts = .ok top ∧
      location = top ++ p.parts := by
  have happend : directory.append p = ⟨directory.root, directory.parts ++ p.parts⟩ := by
    rw [Path.append, Path.isAbsolute, hp.1]
    rfl
  obtain ⟨-, -, hwalk⟩ := locate_eq_ok_iff.mp h
  rw [happend] at hwalk
  obtain ⟨top, htop, hlocation⟩ := exists_of_walk_append hwalk
  exact ⟨top, htop, eq_append_of_walk hp.2 hlocation⟩

theorem eq_of_locate {directory q : Path} (hp : p.IsPlain) (hq : q.IsPlain)
    (h : tree.locate (directory.append p) = .ok location)
    (h' : tree.locate (directory.append q) = .ok location) : p = q := by
  obtain ⟨top, htop, hlocation⟩ := exists_top_of_locate hp h
  obtain ⟨top', htop', hlocation'⟩ := exists_top_of_locate hq h'
  obtain rfl : top = top' := Except.ok.inj (htop.symm.trans htop')
  obtain ⟨root, parts⟩ := p
  obtain ⟨root', parts'⟩ := q
  obtain rfl : parts = parts' := List.append_cancel_left (hlocation.symm.trans hlocation')
  rw [show root = [] from hp.1, show root' = [] from hq.1]

/-- Wherever a path below a directory leads, it ends there with the last component it has. -/
theorem exists_concat_of_locate {directory : Path} {front : List Text} {last : Text}
    (hparts : p.parts = front ++ [last]) (hlast : last ≠ Path.up)
    (h : tree.locate (directory.append p) = .ok location) :
    ∃ middle, location = middle ++ [last] := by
  obtain ⟨-, -, hwalk⟩ := locate_eq_ok_iff.mp h
  rw [Path.append] at hwalk
  split_ifs at hwalk
  · rw [hparts] at hwalk
    exact exists_concat_of_walk hlast hwalk
  · rw [hparts, ← List.append_assoc] at hwalk
    exact exists_concat_of_walk hlast hwalk

theorem readBytes_of_at? {path : Path} (hlocate : tree.locate path = .ok location)
    (h : tree.at? location = some (.file bytes)) : tree.readBytes path = .ok bytes := by
  simp only [readBytes, hlocate, h]

theorem readBytes_of_locate_eq {path other : Path} (h : tree.locate path = tree.locate other)
    (hread : tree.readBytes path = .ok bytes) : tree.readBytes other = .ok bytes := by
  rw [readBytes, h] at hread
  split at hread
  · cases hread
  · next location hlocate =>
    split at hread
    · next hat =>
      obtain rfl := Except.ok.inj hread
      exact readBytes_of_at? hlocate hat
    · cases hread
    · cases hread

theorem encode_injective : Function.Injective Utf8.encode := by
  intro t u h
  have hbytes : (String.ofList t).toByteArray = (String.ofList u).toByteArray :=
    congrArg List.toByteArray h
  have htexts := congrArg String.toList (String.toByteArray_inj.mp hbytes)
  rwa [String.toList_ofList, String.toList_ofList] at htexts

/-! ## Receiving artifacts -/

/-- Whether every directory of a tree is one in a later tree. -/
structure Keeps (tree after : FileTree) : Prop where
  cwd : after.cwd = tree.cwd
  directories : ∀ l, tree.at? l = some .directory → after.at? l = some .directory

theorem Keeps.walk (h : Keeps tree after) {start parts : List Text}
    (hwalk : tree.walk start parts = .ok location) : after.walk start parts = .ok location := by
  induction parts generalizing start with
  | nil => exact hwalk
  | cons p rest ih =>
    obtain ⟨hstart, hlong, hrest⟩ := walk_cons_eq_ok_iff.mp hwalk
    exact walk_cons_eq_ok_iff.mpr ⟨h.directories start hstart, hlong, ih hrest⟩

theorem Keeps.locate (h : Keeps tree after) {path : Path}
    (hlocate : tree.locate path = .ok location) : after.locate path = .ok location := by
  obtain ⟨hnull, hlong, hwalk⟩ := locate_eq_ok_iff.mp hlocate
  refine locate_eq_ok_iff.mpr ⟨hnull, hlong, h.walk ?_⟩
  rw [base, h.cwd, ← base]
  exact hwalk

/-- Whether there is a file at a location that holds one of the artifacts below a directory, and the
name of that artifact leads there. -/
def Shows (tree : FileTree) (directory : Path) (artifacts : List (Text × Text))
    (location : List Text) : Prop :=
  ∃ artifact ∈ artifacts, tree.locate (directory.appendText artifact.1) = .ok location ∧
    tree.at? location = some (.file (Utf8.encode artifact.2))

/-- Whether a tree differs from an earlier one at most by directories that were made and by
artifacts that were written. -/
structure Receives (directory : Path) (artifacts : List (Text × Text)) (tree after : FileTree) :
    Prop extends Keeps tree after where
  files : ∀ l bytes, tree.at? l = some (.file bytes) →
    after.at? l = some (.file bytes) ∨ after.Shows directory artifacts l

namespace Receives

variable {directory : Path} {artifacts : List (Text × Text)}

theorem refl (tree : FileTree) : Receives directory artifacts tree tree :=
  ⟨⟨rfl, fun _ ↦ id⟩, fun _ _ ↦ .inl⟩

theorem shows (h : Receives directory artifacts tree after) {shown : List (Text × Text)}
    (hshows : tree.Shows directory shown location) :
    after.Shows directory shown location ∨ after.Shows directory artifacts location := by
  obtain ⟨artifact, hmem, hlocate, hat⟩ := hshows
  rcases h.files location _ hat with hsame | hnew
  · exact .inl ⟨artifact, hmem, h.locate hlocate, hsame⟩
  · exact .inr hnew

theorem trans {last : FileTree} (h : Receives directory artifacts tree after)
    (h' : Receives directory artifacts after last) : Receives directory artifacts tree last where
  cwd := h'.cwd.trans h.cwd
  directories l hl := h'.directories l (h.directories l hl)
  files l bytes hl := by
    rcases h.files l bytes hl with hsame | hshows
    · exact h'.files l bytes hsame
    · exact .inr ((h'.shows hshows).elim id id)

end Receives

/-! ## Writing, change by change -/

/-- One of the changes that writing artifacts below a directory is made of: a directory is made
where nothing was, or an artifact is put where its name leads. -/
inductive Change (directory : Path) (artifacts : List (Text × Text)) (tree : FileTree) :
    FileTree → Prop
  | made {location : List Text} :
    tree.at? location = none → Change directory artifacts tree (tree.put location .directory)
  | put {name content : Text} {location : List Text} :
    (name, content) ∈ artifacts → tree.locate (directory.appendText name) = .ok location →
    tree.at? location ≠ some .directory →
    Change directory artifacts tree (tree.put location (.file (Utf8.encode content)))

variable {directory : Path} {artifacts : List (Text × Text)}

theorem shows_put {name content : Text} (hmem : (name, content) ∈ artifacts)
    (hlocate : tree.locate (directory.appendText name) = .ok location)
    (hfree : tree.at? location ≠ some .directory) :
    Keeps tree (tree.put location (.file (Utf8.encode content))) ∧
      (tree.put location (.file (Utf8.encode content))).Shows directory artifacts location := by
  have hroot : location ≠ [] := by
    rintro rfl
    exact hfree rfl
  have hkeeps : Keeps tree (tree.put location (.file (Utf8.encode content))) := by
    refine ⟨cwd_put _, fun l hl ↦ ?_⟩
    rw [at?_put_of_ne, hl]
    rintro rfl
    exact hfree hl
  exact ⟨hkeeps, (name, content), hmem, hkeeps.locate hlocate, at?_put_self hroot _⟩

theorem Change.mono {more : List (Text × Text)} (hsub : artifacts ⊆ more)
    (h : Change directory artifacts tree after) : Change directory more tree after := by
  cases h with
  | made hnone => exact .made hnone
  | put hmem hlocate hfree => exact .put (hsub hmem) hlocate hfree

theorem Shows.mono {more : List (Text × Text)} (hsub : artifacts ⊆ more)
    (h : tree.Shows directory artifacts location) : tree.Shows directory more location := by
  obtain ⟨artifact, hmem, hshown⟩ := h
  exact ⟨artifact, hsub hmem, hshown⟩

theorem Change.receives (h : Change directory artifacts tree after) :
    Receives directory artifacts tree after := by
  cases h with
  | @made location hnone =>
    have hstays : ∀ l node, tree.at? l = some node →
        (tree.put location .directory).at? l = some node := by
      intro l node hl
      rw [at?_put_of_ne, hl]
      rintro rfl
      rw [hnone] at hl
      cases hl
    exact ⟨⟨cwd_put _, fun l ↦ hstays l _⟩, fun l _ hl ↦ .inl (hstays l _ hl)⟩
  | @put name content location hmem hlocate hfree =>
    obtain ⟨hkeeps, hshows⟩ := shows_put hmem hlocate hfree
    refine ⟨hkeeps, fun l bytes hl ↦ ?_⟩
    by_cases heq : l = location
    · exact .inr (heq ▸ hshows)
    · rw [at?_put_of_ne heq]
      exact .inl hl

/-- A file that is there after a change was there before, or it is an artifact. -/
theorem Change.origin (h : Change directory artifacts tree after)
    (hl : after.at? l = some (.file bytes)) :
    tree.at? l = some (.file bytes) ∨ after.Shows directory artifacts l := by
  cases h with
  | @made location hnone =>
    left
    by_cases heq : l = location
    · subst heq
      have hroot : l ≠ [] := by
        rintro rfl
        cases hnone
      rw [at?_put_self hroot] at hl
      cases hl
    · rwa [at?_put_of_ne heq] at hl
  | @put name content location hmem hlocate hfree =>
    by_cases heq : l = location
    · exact .inr (heq ▸ (shows_put hmem hlocate hfree).2)
    · rw [at?_put_of_ne heq] at hl
      exact .inl hl

theorem receives_of_changes (h : ReflTransGen (Change directory artifacts) tree after) :
    Receives directory artifacts tree after := by
  induction h with
  | refl => exact .refl tree
  | tail _ hchange ih => exact ih.trans hchange.receives

/-- **Nothing comes from elsewhere**: a file that is there after artifacts were written was there
before, or it is an artifact in its place. -/
theorem origin_of_changes (h : ReflTransGen (Change directory artifacts) tree after)
    (hl : after.at? l = some (.file bytes)) :
    tree.at? l = some (.file bytes) ∨ after.Shows directory artifacts l := by
  induction h generalizing bytes with
  | refl => exact .inl hl
  | tail _ hchange ih =>
    rcases hchange.origin hl with hbefore | hshows
    · rcases ih hbefore with hfirst | hshows
      · exact .inl hfirst
      · exact .inr ((hchange.receives.shows hshows).elim id id)
    · exact .inr hshows

theorem changes_makeOne {path : Path} (h : tree.makeOne path = .ok after) :
    ReflTransGen (Change directory artifacts) tree after := by
  rw [makeOne] at h
  split at h
  · cases h
  · split at h
    · cases h
    · next hnone =>
      obtain rfl := Except.ok.inj h
      exact .single (.made hnone)

theorem changes_makeUnlessThere {path : Path} (h : tree.makeUnlessThere path = .ok after) :
    ReflTransGen (Change directory artifacts) tree after := by
  rw [makeUnlessThere] at h
  split at h
  · next hmade =>
    obtain rfl := Except.ok.inj h
    exact changes_makeOne hmade
  · split_ifs at h
    obtain rfl := Except.ok.inj h
    exact .refl

theorem changes_makeAll (tree : FileTree) (root : Text) (reversed : List Text) :
    ReflTransGen (Change directory artifacts) tree (tree.makeAll root reversed).1 := by
  induction reversed with
  | nil => exact .refl
  | cons p rest ih =>
    rw [makeAll]
    split
    · next hmade => exact changes_makeOne hmade
    · -- The directory above is missing, so the ones above are made first.
      split
      · next habove => exact habove ▸ ih
      · next habove =>
        have habove : ReflTransGen (Change directory artifacts) tree _ := habove ▸ ih
        split
        · next hagain => exact habove.trans (changes_makeUnlessThere hagain)
        · exact habove
    · split_ifs
      · exact .refl
      · exact .refl

theorem change_writeText {name content : Text} (hmem : (name, content) ∈ artifacts)
    (h : tree.writeText (directory.appendText name) content = .ok after) :
    Change directory artifacts tree after ∧
      ∃ l, after.locate (directory.appendText name) = .ok l ∧
        after.Shows directory artifacts l := by
  rw [writeText] at h
  split at h
  · cases h
  next location hlocate =>
  split at h
  · cases h
  next hfree =>
  obtain rfl := Except.ok.inj h
  obtain ⟨hkeeps, hshows⟩ := shows_put hmem hlocate hfree
  exact ⟨.put hmem hlocate hfree, location, hkeeps.locate hlocate, hshows⟩

theorem changes_writeArtifact (tree : FileTree) (directory : Path) {name content : Text}
    (hmem : (name, content) ∈ artifacts) :
    ReflTransGen (Change directory artifacts) tree
        (tree.writeArtifact directory name content).1 ∧
      ∀ path, (tree.writeArtifact directory name content).2 = .ok path →
        ∃ l, (tree.writeArtifact directory name content).1.locate (directory.appendText name) =
            .ok l ∧
          (tree.writeArtifact directory name content).1.Shows directory artifacts l := by
  have hmake : ReflTransGen (Change directory artifacts) tree
      (tree.makeDirectories (directory.appendText name).parent).1 := changes_makeAll tree _ _
  rw [writeArtifact]
  generalize tree.makeDirectories (directory.appendText name).parent = made at hmake
  obtain ⟨made, failure⟩ := made
  cases failure with
  | some e => exact ⟨hmake, fun path h ↦ by cases h⟩
  | none =>
    dsimp only at hmake ⊢
    cases hwrite : made.writeText (directory.appendText name) content with
    | error e => exact ⟨hmake, fun path h ↦ by cases h⟩
    | ok written =>
      obtain ⟨hchange, hshows⟩ := change_writeText hmem hwrite
      exact ⟨hmake.tail hchange, fun _ _ ↦ hshows⟩

theorem changes_writeArtifacts (tree : FileTree) (directory : Path)
    {written : List (Text × Text)} (hwritten : written ⊆ artifacts) :
    ReflTransGen (Change directory artifacts) tree (tree.writeArtifacts directory written).1 := by
  induction written generalizing tree with
  | nil => exact .refl
  | cons first rest ih =>
    obtain ⟨name, content⟩ := first
    obtain ⟨hmem, hrest⟩ := List.cons_subset.mp hwritten
    obtain ⟨hfirst, -⟩ := changes_writeArtifact tree directory hmem
    rw [writeArtifacts]
    generalize tree.writeArtifact directory name content = outcome at hfirst
    obtain ⟨after, result⟩ := outcome
    cases result with
    | error e => exact hfirst
    | ok path => exact hfirst.trans (ih after hrest)

theorem changes_write {page : Compiled} {result : Except FileError (List Path)}
    (h : page.write directory tree = (after, result)) :
    ReflTransGen (Change directory page.artifacts) tree after := by
  have hchanges := changes_writeArtifacts tree directory (List.Subset.refl page.artifacts)
  rwa [← Compiled.write, h] at hchanges

/-- **Writing artifacts changes nothing but where they go**, even if not all of them can be written;
and where all are written, the name of each leads to one of them. -/
theorem receives_writeArtifacts (tree : FileTree) (directory : Path) {written : List (Text × Text)}
    (hwritten : written ⊆ artifacts) :
    Receives directory artifacts tree (tree.writeArtifacts directory written).1 ∧
      ∀ paths, (tree.writeArtifacts directory written).2 = .ok paths →
        ∀ artifact ∈ written, ∃ l,
          (tree.writeArtifacts directory written).1.locate (directory.appendText artifact.1) =
              .ok l ∧
            (tree.writeArtifacts directory written).1.Shows directory artifacts l := by
  refine ⟨receives_of_changes (changes_writeArtifacts tree directory hwritten), ?_⟩
  induction written generalizing tree with
  | nil => exact fun _ _ artifact h ↦ absurd h List.not_mem_nil
  | cons first rest ih =>
    obtain ⟨name, content⟩ := first
    obtain ⟨hmem, hrest⟩ := List.cons_subset.mp hwritten
    obtain ⟨-, hshown⟩ := changes_writeArtifact tree directory hmem
    rw [writeArtifacts]
    generalize tree.writeArtifact directory name content = outcome at hshown
    obtain ⟨after, result⟩ := outcome
    intro paths h artifact hartifact
    cases result with
    | error e => cases h
    | ok path =>
      rcases List.mem_cons.mp hartifact with rfl | hartifact
      · have hreceives := receives_of_changes (changes_writeArtifacts after directory hrest)
        obtain ⟨l, hlocate, hshows⟩ := hshown path rfl
        exact ⟨l, hreceives.locate hlocate, (hreceives.shows hshows).elim id id⟩
      · obtain ⟨more, hmore, -⟩ := exists_of_map_eq_ok h
        exact ih after hrest more hmore artifact hartifact

/-- An artifact that could not be written left directories at most. -/
theorem changes_of_writeArtifact_error {name content : Text} {e : FileError}
    (h : (tree.writeArtifact directory name content).2 = .error e) :
    ReflTransGen (Change directory artifacts) tree
      (tree.writeArtifact directory name content).1 := by
  have hmake : ReflTransGen (Change directory artifacts) tree
      (tree.makeDirectories (directory.appendText name).parent).1 := changes_makeAll tree _ _
  rw [writeArtifact] at h ⊢
  generalize tree.makeDirectories (directory.appendText name).parent = made at hmake h
  obtain ⟨made, failure⟩ := made
  cases failure with
  | some e => exact hmake
  | none =>
    dsimp only at hmake h ⊢
    cases hwrite : made.writeText (directory.appendText name) content with
    | error e => exact hmake
    | ok written =>
      rw [hwrite] at h
      cases h

/-- **Writing stops at the first artifact that cannot be written**, and what it changed until then
is where the artifacts before that one go, each of which is there. -/
theorem exists_of_writeArtifacts_error {written : List (Text × Text)} {e : FileError}
    (h : (tree.writeArtifacts directory written).2 = .error e) :
    ∃ front artifact back, written = front ++ artifact :: back ∧
      ReflTransGen (Change directory front) tree (tree.writeArtifacts directory written).1 ∧
      ∀ shown ∈ front, ∃ l,
        (tree.writeArtifacts directory written).1.locate (directory.appendText shown.1) = .ok l ∧
          (tree.writeArtifacts directory written).1.Shows directory front l := by
  induction written generalizing tree with
  | nil => cases h
  | cons first rest ih =>
    obtain ⟨name, content⟩ := first
    rw [writeArtifacts] at h ⊢
    rcases hfirst : tree.writeArtifact directory name content with ⟨after, e' | path⟩
    · refine ⟨[], (name, content), rest, rfl, ?_, fun _ hmem ↦ absurd hmem List.not_mem_nil⟩
      have hchanges := @changes_of_writeArtifact_error tree directory [] name content e'
      rw [hfirst] at hchanges
      exact hchanges rfl
    · rw [hfirst] at h
      obtain ⟨front, artifact, back, rfl, hchanges, hshown⟩ := ih (eq_error_of_map_eq_error h)
      have hsub : front ⊆ (name, content) :: front := List.subset_cons_self _ _
      obtain ⟨hfirsts, hfound⟩ :=
        changes_writeArtifact tree directory
          (List.mem_cons_self (a := (name, content)) (l := front))
      rw [hfirst] at hfirsts hfound
      have hmore := ReflTransGen.mono (fun _ _ ↦ Change.mono hsub) _ _ hchanges
      refine ⟨(name, content) :: front, artifact, back, rfl, hfirsts.trans hmore, ?_⟩
      intro shown hmem
      rcases List.mem_cons.mp hmem with rfl | hmem
      · obtain ⟨l, hlocate, hshows⟩ := hfound path rfl
        have hreceives := receives_of_changes hmore
        exact ⟨l, hreceives.locate hlocate, (hreceives.shows hshows).elim id id⟩
      · obtain ⟨l, hlocate, hshows⟩ := hshown shown hmem
        exact ⟨l, hlocate, hshows.mono hsub⟩

end FileTree

end PageCompiler
