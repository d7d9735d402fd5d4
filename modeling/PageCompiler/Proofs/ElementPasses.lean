import PageCompiler.Proofs.ConditionTable
import PageCompiler.Proofs.WellWrittenTemplates

/-!
# Metadata, links and components in trees

The first passes over a template fill in the metadata and lower the tags of links and components.
Here each of them is seen to act on trees: the metadata is filled in leaf by leaf and frame by frame
(`Markup.Tree.fillPlaceholders_source`), the tags that close themselves are leaves that become plain
markup (`Markup.Tree.substitute_uses`), and the other tags are frames that become plain markup
(`Markup.Tree.substitute_elements`). What these passes write is inert, so that a sound tree stays
sound while fewer and fewer names are pending.
-/

namespace PageCompiler

namespace Markup

/-! ## Placeholders -/

/-- How placeholders are written. -/
def WritesPlaceholder : Text.Form Text := fun _ source key ↦
  Text.IsName key ∧ source = '\x7b' :: (key ++ ['\x7d'])

theorem readPlaceholder_eq_some_iff {t key rest : Text} :
    readPlaceholder t = some (key, rest) ↔
      Text.IsName key ∧ t = '\x7b' :: (key ++ '\x7d' :: rest) := by
  simp only [readPlaceholder, Option.bind_eq_bind, Option.bind_eq_some_iff]
  exact exists_word_iff

theorem reads_placeholder : Text.Reads readPlaceholder WritesPlaceholder :=
  reads_word ['\x7b'] (List.cons_ne_nil _ _) fun _ _ _ ↦ readPlaceholder_eq_some_iff

theorem readPlaceholder_of_not_isWord {c : Char} (h : isWord c = false) (t : Text) :
    readPlaceholder ('\x7b' :: c :: t) = none := by
  rw [Option.eq_none_iff_forall_not_mem]
  rintro ⟨key, rest⟩ hmem
  obtain ⟨hkey, heq⟩ := readPlaceholder_eq_some_iff.mp hmem
  obtain ⟨d, ds, rfl, hd⟩ := hkey.exists_cons
  obtain rfl : c = d := (List.cons.inj (List.cons.inj heq).2).1
  rw [h] at hd
  cases hd

/-- A closed text is searched for placeholders on its own. -/
theorem cuts_of_closed {t : Text} (h : Text.Closed t) :
    Text.Cuts readPlaceholder t (Text.pieces readPlaceholder t) := by
  have hclosed : ∀ front back : Text, Text.Closed (front ++ back) → Text.Closed back :=
    fun _ _ hall name hname hsuffix ↦ hall name hname (hsuffix.trans (List.suffix_append _ _))
  intro rest
  fun_induction Text.pieces readPlaceholder t with
  | case1 => rfl
  | case2 c cs hread ih =>
    have hnone : readPlaceholder (c :: (cs ++ rest)) = none := by
      rw [Option.eq_none_iff_forall_not_mem]
      rintro ⟨key, behind⟩ hmem
      obtain ⟨hkey, heq⟩ := readPlaceholder_eq_some_iff.mp hmem
      obtain ⟨rfl, hinside⟩ := List.cons.inj heq
      rcases List.append_eq_append_iff.mp hinside with ⟨more, rfl, -⟩ | ⟨more, rfl, hmore⟩
      · -- The text ends within the name.
        exact h cs (fun c hc ↦ hkey.2 c (List.mem_append_left _ hc)) (List.suffix_refl _)
      · cases more with
        | nil =>
          rw [List.append_nil] at h
          exact h key hkey.2 (List.suffix_refl _)
        | cons d more =>
          obtain ⟨rfl, -⟩ := List.cons.inj hmore
          rw [readPlaceholder_eq_some_iff.mpr ⟨hkey, rfl⟩] at hread
          cases hread
    rw [List.cons_append, Text.pieces_cons_of_none hnone, ih (hclosed [c] cs h)]
    rfl
  | case3 c cs key behind hread hle ih =>
    obtain ⟨hkey, heq⟩ := readPlaceholder_eq_some_iff.mp hread
    have hmore : readPlaceholder (c :: (cs ++ rest)) = some (key, behind ++ rest) := by
      refine readPlaceholder_eq_some_iff.mpr ⟨hkey, ?_⟩
      rw [← List.cons_append, heq]
      simp only [List.cons_append, List.append_assoc]
    have hlength : (behind ++ rest).length ≤ (cs ++ rest).length := by
      rw [List.length_append, List.length_append]
      omega
    have hbehind : Text.Closed behind := by
      refine hclosed ('\x7b' :: (key ++ ['\x7d'])) behind ?_
      rw [heq] at h
      simpa only [List.cons_append, List.append_assoc, List.nil_append] using h
    rw [List.cons_append, Text.pieces_cons_of_some hmore hlength, ih hbehind]
    rfl
  | case4 c cs key behind hread hle ih =>
    obtain ⟨-, heq⟩ := readPlaceholder_eq_some_iff.mp hread
    have hsum := congrArg List.length heq
    simp only [List.length_cons, List.length_append] at hsum
    omega

/-! ## Filling in metadata -/

variable {l : Leaf} {f : Frame}

section Filling

variable {fields : FrontMatter} {t t' u u' : Text}

/-- Whether filling in the metadata makes one text of another, whatever follows. -/
def Fills (fields : FrontMatter) (t t' : Text) : Prop :=
  ∀ rest, fillPlaceholders fields (t ++ rest) = t' ++ fillPlaceholders fields rest

theorem Fills.append (ht : Fills fields t t') (hu : Fills fields u u') :
    Fills fields (t ++ u) (t' ++ u') := by
  intro rest
  rw [List.append_assoc, ht, hu, List.append_assoc]

theorem Fills.fillPlaceholders_eq (h : Fills fields t t') : fillPlaceholders fields t = t' := by
  have hnil : fillPlaceholders fields [] = [] := by
    rw [fillPlaceholders, Text.substitute, Text.pieces]
    rfl
  rw [← List.append_nil t, h [], hnil, List.append_nil]

theorem fills_of_closed (h : Text.Closed t) : Fills fields t (fillPlaceholders fields t) := by
  intro rest
  simp only [fillPlaceholders, Text.substitute_eq_flatMap]
  rw [cuts_of_closed h rest, List.flatMap_append]

theorem fills_of_notMem (h : '\x7b' ∉ t) : Fills fields t t := by
  intro rest
  refine Text.substitute_append_of_none (fun c hc u ↦ ?_) _ rest
  exact readPlaceholder_of_ne (fun heq ↦ h (heq ▸ hc)) u

theorem fills_placeholder {key : Text} (h : Text.IsName key) :
    Fills fields ('\x7b' :: (key ++ ['\x7d'])) (writePlaceholder fields key) := by
  intro rest
  refine Text.substitute_append_of_some (List.cons_ne_nil _ _) ?_ _
  refine readPlaceholder_eq_some_iff.mpr ⟨h, ?_⟩
  simp only [List.cons_append, List.append_assoc, List.nil_append]

theorem fills_brace {sign : Char} (hsign : isWord sign = false) (ht : '\x7b' ∉ sign :: t) :
    Fills fields ('\x7b' :: sign :: t) ('\x7b' :: sign :: t) := by
  intro rest
  have hrest : fillPlaceholders fields (sign :: t ++ rest) = _ := fills_of_notMem ht rest
  rw [List.cons_append, List.cons_append, fillPlaceholders,
    Text.substitute_cons_of_none (readPlaceholder_of_not_isWord hsign _), ← fillPlaceholders,
    ← List.cons_append, hrest]
  rfl

theorem fills_tag {name attributes ending : Text} {c : Char} (hname : Text.IsName name)
    (hc : isWord c = false) (hbrace : c ∉ ("\x7b\x7d" : Text)) (hending : '\x7b' ∉ ending) :
    Fills fields ('<' :: (name ++ (attributes ++ c :: ending)))
      ('<' :: (name ++ (fillPlaceholders fields attributes ++ c :: ending))) := by
  have hfront : '\x7b' ∉ '<' :: name := by
    have hmem := hname.notMem_of_not_isWord (show isWord '\x7b' = false by decide)
    simp [hmem]
  have hparts : ∀ before source key, WritesPlaceholder before source key → c ∉ source := by
    rintro before source key ⟨hkey, rfl⟩ hmem
    have hword := hkey.notMem_of_not_isWord hc
    have hopen : c ≠ '\x7b' := fun heq ↦ hbrace (heq ▸ by decide)
    have hclose : c ≠ '\x7d' := fun heq ↦ hbrace (heq ▸ by decide)
    simp [hword, hopen, hclose] at hmem
  have hback : Fills fields (attributes ++ c :: ending)
      (fillPlaceholders fields attributes ++ c :: ending) := by
    intro rest
    rw [List.append_assoc, List.cons_append, fillPlaceholders,
      reads_placeholder.substitute_append_cons hparts, ← fillPlaceholders, ← fillPlaceholders,
      fills_of_notMem hending rest, List.append_assoc]
    rfl
  exact (fills_of_notMem hfront).append hback

variable {names pending : List Text}

theorem Leaf.fills (hpending : ∀ name ∈ pending, Text.IsName name) (hclosed : l.Closed)
    (h : (l.fill fields).Sound names pending) : Fills fields l.source (l.fill fields).source := by
  have hbound : ∀ name, Text.IsName name →
      Fills fields ("\x7b$" ++ (name ++ ['\x7d'])) ("\x7b$" ++ (name ++ ['\x7d'])) := by
    intro name hname
    have hnone : '\x7b' ∉ '$' :: (name ++ ['\x7d']) := by
      have hmem := hname.notMem_of_not_isWord (show isWord '\x7b' = false by decide)
      simp [hmem]
    exact fills_brace (by decide) hnone
  cases l with
  | text t => exact fills_of_closed hclosed
  | placeholder key => exact fills_placeholder hclosed
  | use name attributes =>
    exact fills_tag (hpending name h.1) (by decide) (by decide) (by decide)
  | event front b =>
    obtain ⟨-, hfront, -, -, hevent, hhandler, -⟩ := h
    have hnone : '\x7b' ∉ front :: (b.event ++ ['=']) := by
      have hmem : '\x7b' ∉ b.event := fun hmem ↦ absurd (hevent _ hmem) (by decide)
      simp [hmem, Ne.symm hfront]
    have hname : Fills fields _ _ := fills_of_notMem hnone
    have hwhole := hname.append (hbound b.handler hhandler)
    rw [List.cons_append, List.append_assoc] at hwhole
    exact hwhole
  | binding name => exact hbound name h

theorem Frame.fills (hpending : ∀ name ∈ pending, Text.IsName name) (hraw : f.mark? ≠ none)
    (h : (f.fill fields).Sound names pending) :
    Fills fields f.opening (f.fill fields).opening ∧
      Fills fields f.closing (f.fill fields).closing := by
  cases f with
  | raw opening closing => exact absurd rfl hraw
  | element name attributes =>
    have hname := hpending name h.1
    refine ⟨fills_tag hname (by decide) (by decide) (by decide), fills_of_notMem ?_⟩
    have hmem := hname.notMem_of_not_isWord (show isWord '\x7b' = false by decide)
    simp [closing, hmem]
  | block blank condition =>
    obtain ⟨hblank, -, hopen, -⟩ := h
    have hne : '\x7b' ≠ blank := by
      rintro rfl
      exact absurd hblank (by decide)
    have hnone : '\x7b' ∉ '#' :: 'i' :: 'f' :: (blank :: condition ++ ['\x7d']) := by
      simp [hopen, hne]
    have hclosing : '\x7b' ∉ ['/', 'i', 'f', '\x7d'] := by decide
    exact ⟨fills_brace (by decide) hnone, fills_brace (by decide) hclosing⟩

/-- **Metadata is filled in leaf by leaf and frame by frame.** -/
theorem Tree.fillPlaceholders_source (hpending : ∀ name ∈ pending, Text.IsName name) {T : Tree}
    (hclosed : ∀ l ∈ T.leaves, l.Closed) (hraw : ∀ q ∈ T.frames, q.1.mark? ≠ none)
    (h : (T.fill fields).Sound names pending) :
    fillPlaceholders fields T.source = (T.fill fields).source := by
  have hleaf : ∀ l ∈ T.leaves, Fills fields l.source (l.fill fields).source := by
    intro l hl
    exact l.fills hpending (hclosed l hl) (h.leaf _ (mem_leaves_map hl))
  have hframe : ∀ q ∈ T.frames, Fills fields q.1.opening (q.1.fill fields).opening ∧
      Fills fields q.1.closing (q.1.fill fields).closing := by
    intro q hq
    exact q.1.fills hpending (hraw q hq) (h.frame _ (mem_frames_map hq))
  have hfills := induction_of_mem (motive := fun T ↦ Fills fields T.source (T.fill fields).source)
    hleaf hframe (fun _ ↦ rfl) (fun hl hrest ↦ hl.append hrest)
    fun hf hbody hrest ↦ (hf.1.append (hbody.append hf.2)).append hrest
  exact hfills.fillPlaceholders_eq

end Filling

/-! ## Reading tags -/

section Reading

variable {name s attributes rest : Text}

theorem readOpening_eq_some_iff : readOpening name s = some (attributes, rest) ↔
    s = '<' :: (name ++ (attributes ++ '>' :: rest)) ∧
      Text.atWordEnd (attributes ++ '>' :: rest) = true ∧ '>' ∉ attributes := by
  simp only [readOpening, Option.bind_eq_bind, Option.bind_eq_some_iff, Text.after?_eq_some_iff]
  constructor
  · rintro ⟨behind, rfl, hread⟩
    split_ifs at hread with hend
    obtain ⟨rfl, hwithin⟩ := Text.upTo?_eq_some_iff.mp hread
    exact ⟨rfl, hend, hwithin⟩
  · rintro ⟨rfl, hend, hwithin⟩
    refine ⟨_, rfl, ?_⟩
    rw [if_pos hend]
    exact Text.upTo?_append_cons hwithin rest

theorem readElement_eq_some_iff {body : Text} :
    readElement name s = some ((attributes, body), rest) ↔
      readOpening name s = some (attributes, body ++ ("</" ++ name ++ ">" ++ rest)) ∧
        Text.FirstBehind ("</" ++ name ++ ">") body := by
  have hne : ("</" ++ name ++ ">" : Text) ≠ [] := List.cons_ne_nil _ _
  simp only [readElement, Option.bind_eq_bind, Option.bind_eq_some_iff]
  constructor
  · rintro ⟨⟨found, behind⟩, hopening, ⟨inside, after⟩, hcut, hsome⟩
    obtain ⟨hfound, rfl⟩ := Prod.mk.inj (Option.some.inj hsome)
    obtain ⟨rfl, rfl⟩ := Prod.mk.inj hfound
    obtain ⟨rfl, hfirst⟩ := (Text.cut?_eq_some_iff hne).mp hcut
    exact ⟨hopening, hfirst⟩
  · rintro ⟨hopening, hfirst⟩
    exact ⟨_, hopening, _, (Text.cut?_eq_some_iff hne).mpr ⟨rfl, hfirst⟩, rfl⟩

theorem readSelfClosing_eq_some_iff {found : Text} :
    readSelfClosing name s = some (found, rest) ↔
      ∃ attributes, found = Text.trimRight attributes ∧
        readOpening name s = some (attributes ++ ['/'], rest) := by
  simp only [readSelfClosing, Option.bind_eq_bind, Option.bind_eq_some_iff]
  constructor
  · rintro ⟨⟨inside, behind⟩, hopening, attributes, hbefore, hsome⟩
    obtain ⟨rfl, rfl⟩ := Prod.mk.inj (Option.some.inj hsome)
    obtain rfl := Text.before?_eq_some_iff.mp hbefore
    exact ⟨attributes, rfl, hopening⟩
  · rintro ⟨attributes, rfl, hopening⟩
    exact ⟨_, hopening, attributes, Text.before?_eq_some_iff.mpr rfl, rfl⟩

theorem beginsTag_of_readOpening (h : readOpening name s = some (attributes, rest)) :
    BeginsTag name s := by
  obtain ⟨rfl, hend, -⟩ := readOpening_eq_some_iff.mp h
  exact .inl ⟨_, rfl, hend⟩

theorem beginsTag_of_readElement (h : readElement name s ≠ none) : BeginsTag name s := by
  obtain ⟨⟨⟨attributes, body⟩, rest⟩, hread⟩ := Option.ne_none_iff_exists'.mp h
  exact beginsTag_of_readOpening (readElement_eq_some_iff.mp hread).1

theorem beginsTag_of_readSelfClosing (h : readSelfClosing name s ≠ none) : BeginsTag name s := by
  obtain ⟨⟨found, rest⟩, hread⟩ := Option.ne_none_iff_exists'.mp h
  obtain ⟨attributes, -, hopening⟩ := readSelfClosing_eq_some_iff.mp hread
  exact beginsTag_of_readOpening hopening

end Reading

/-! ## Tags in sound trees -/

/-- The attributes of a tag that closes itself, if it has the given name. -/
def Leaf.attributes? (name : Text) : Leaf → Option Text
  | use other attributes => if other = name then some attributes else none
  | _ => none

/-- The attributes of an element, if it has the given name. -/
def Frame.attributes? (name : Text) : Frame → Option Text
  | element other attributes => if other = name then some attributes else none
  | _ => none

theorem Leaf.attributes?_eq_some_iff {name attributes : Text} :
    l.attributes? name = some attributes ↔ l = .use name attributes := by
  cases l with
  | use other a =>
    rw [attributes?]
    split_ifs with heq
    · simp [heq]
    · simp [heq]
  | _ => simp [attributes?]

theorem Frame.attributes?_eq_some_iff {name attributes : Text} :
    f.attributes? name = some attributes ↔ f = .element name attributes := by
  cases f with
  | element other a =>
    rw [attributes?]
    split_ifs with heq
    · simp [heq]
    · simp [heq]
  | _ => simp [attributes?]

theorem FitsTag.atWordEnd {names : List Text} {attributes ending : Text}
    (h : FitsTag names attributes ending) (hne : ending ≠ []) (hend : Text.atWordEnd ending = true)
    (rest : Text) : Text.atWordEnd (attributes ++ ending ++ rest) = true := by
  cases attributes with
  | cons c cs => exact h.apart
  | nil =>
    obtain ⟨c, cs, rfl⟩ := List.exists_cons_of_ne_nil hne
    exact hend

section Sound

variable {names pending : List Text} {name : Text} (hnames : ∀ name ∈ names, Text.IsName name)
  (hpending : pending ⊆ names) (hname : name ∈ names)

include hnames hpending hname

theorem Leaf.Sound.nowhere_beginsTag (h : l.Sound names pending) (hl : l.attributes? name = none) :
    Text.Nowhere (BeginsTag name) l.source := by
  cases l with
  | text t => exact h.1.beginsTag hname
  | placeholder key => exact h.elim
  | use other attributes =>
    obtain ⟨hother, -, hfits, -⟩ := h
    have hne : name ≠ other := by
      rintro rfl
      simp [attributes?] at hl
    exact nowhere_beginsTag_opening (hnames name hname) (hnames other (hpending hother)) hne
      (hfits.atWordEnd (by decide) (by decide)) (hfits.untagged.beginsTag hname)
  | event front b =>
    obtain ⟨hfront, -, -, -, hevent, hhandler, -⟩ := h
    have hmem : '<' ∉ b.event := fun hmem ↦ absurd (hevent _ hmem) (by decide)
    have hmem' := hhandler.notMem_of_not_isWord (show isWord '<' = false by decide)
    refine nowhere_beginsTag_of_notMem ?_
    simp [source, hmem, hmem', Ne.symm hfront]
  | binding other =>
    have hmem := Text.IsName.notMem_of_not_isWord h (show isWord '<' = false by decide)
    refine nowhere_beginsTag_of_notMem ?_
    simp [source, hmem]

theorem Frame.Sound.nowhere_beginsTag (h : f.Sound names pending) (hf : f.attributes? name = none) :
    Text.Nowhere (BeginsTag name) f.opening ∧
      Text.Nowhere (BeginsTag name) f.closing := by
  cases f with
  | raw opening closing => exact ⟨h.1.1.1.beginsTag hname, h.2.1.1.beginsTag hname⟩
  | element other attributes =>
    obtain ⟨hother, hfits, -⟩ := h
    have hne : name ≠ other := by
      rintro rfl
      simp [attributes?] at hf
    have hother := hnames other (hpending hother)
    exact ⟨nowhere_beginsTag_opening (hnames name hname) hother hne
      (hfits.atWordEnd (by decide) (by decide)) (hfits.untagged.beginsTag hname),
      nowhere_beginsTag_closing (hnames name hname) hother hne⟩
  | block blank condition =>
    obtain ⟨hblank, -, -, -, huntagged⟩ := h
    have hne : '<' ≠ blank := by
      rintro rfl
      exact absurd hblank (by decide)
    have hfront : '<' ∉ ("\x7b#if" : Text) ++ [blank] := by
      rw [List.mem_append, List.mem_singleton, not_or]
      exact ⟨by decide, hne⟩
    have hopening := (nowhere_beginsTag_of_notMem hfront).append (huntagged.beginsTag hname)
    rw [List.append_assoc, List.singleton_append, ← List.cons_append] at hopening
    have hclosing : '<' ∉ ("\x7b/if\x7d" : Text) := by decide
    exact ⟨hopening, nowhere_beginsTag_of_notMem hclosing⟩

end Sound

section SelfClosing

variable {name attributes : Text} (hname : Text.IsName name)

include hname

/-- An opening tag without a slash at its end does not close itself. -/
theorem nowhere_readSelfClosing_opening
    (hbehind : Text.Nowhere (BeginsTag name) (attributes ++ ['>']))
    {names : List Text} (hfits : FitsTag names attributes ['>']) (hslash : ¬ ['/'] <:+ attributes) :
    Text.Nowhere (fun s ↦ readSelfClosing name s ≠ none)
      (Frame.element name attributes).opening := by
  have hinside : Text.Nowhere (BeginsTag name) name :=
    nowhere_beginsTag_of_notMem (hname.notMem_of_not_isWord (by decide))
  refine ⟨fun rest hread ↦ ?_, (hinside.append hbehind).mono fun _ ↦ beginsTag_of_readSelfClosing⟩
  obtain ⟨⟨found, behind⟩, hread⟩ := Option.ne_none_iff_exists'.mp hread
  obtain ⟨inside, -, hopening⟩ := readSelfClosing_eq_some_iff.mp hread
  have hend := hfits.atWordEnd (by decide) (by decide) rest
  rw [List.append_assoc, List.singleton_append] at hend
  have hread' : readOpening name ('<' :: (name ++ (attributes ++ '>' :: rest))) =
      some (attributes, rest) := readOpening_eq_some_iff.mpr ⟨rfl, hend, hfits.within⟩
  rw [List.append_assoc, List.append_assoc, List.singleton_append, hread', Option.some.injEq,
    Prod.mk.injEq] at hopening
  exact hslash ⟨inside, hopening.1.symm⟩

theorem nowhere_readSelfClosing_closing :
    Text.Nowhere (fun s ↦ readSelfClosing name s ≠ none)
      (Frame.element name attributes).closing := by
  have hinside : '<' ∉ '/' :: (name ++ ['>']) := by
    have hmem := hname.notMem_of_not_isWord (show isWord '<' = false by decide)
    simp [hmem]
  have hbehind : Text.Nowhere (BeginsTag name) ('/' :: (name ++ ['>'])) :=
    nowhere_beginsTag_of_notMem hinside
  refine ⟨fun rest hread ↦ ?_, hbehind.mono fun _ ↦ beginsTag_of_readSelfClosing⟩
  obtain ⟨⟨found, behind⟩, hread⟩ := Option.ne_none_iff_exists'.mp hread
  obtain ⟨inside, -, hopening⟩ := readSelfClosing_eq_some_iff.mp hread
  obtain ⟨heq, -, -⟩ := readOpening_eq_some_iff.mp hopening
  obtain ⟨c, cs, rfl, hc⟩ := hname.exists_cons
  have hslash : '/' = c := (List.cons.inj (List.cons.inj heq).2).1
  rw [← hslash] at hc
  exact absurd hc (by decide)

end SelfClosing

/-! ## The passes -/

def elementPass (name : Text) : Pass (Text × Text) where
  frame f := (f.attributes? name).map Prod.mk

/-- The pass that finds the tags of a name that close themselves. -/
def usePass (name : Text) : Pass Text where
  leaf l :=
    match l.attributes? name with
    | some attributes => [.found (Text.trimRight attributes)]
    | none => l.source.map .plain

/-- Writes plain markup for the elements of a name. -/
def Frame.lowerElement (name : Text) (opening : Text → Text) (closing : Text) (f : Frame) : Frame :=
  match f.attributes? name with
  | some attributes => raw (opening attributes) closing
  | none => f

/-- Writes plain markup for the tags of a name that close themselves. -/
def Leaf.lowerUse (name : Text) (write : Text → Text) (l : Leaf) : Leaf :=
  match l.attributes? name with
  | some attributes => text (write (Text.trimRight attributes))
  | none => l

theorem Frame.lowerElement_of_none {name closing : Text} {opening : Text → Text}
    (h : f.attributes? name = none) : f.lowerElement name opening closing = f := by
  rw [lowerElement, h]

theorem Leaf.lowerUse_of_none {name : Text} {write : Text → Text} (h : l.attributes? name = none) :
    l.lowerUse name write = l := by
  rw [lowerUse, h]

theorem usePass_leaf_of_none {name : Text} (h : l.attributes? name = none) :
    (usePass name).leaf l = l.source.map .plain := by
  simp only [usePass, h]

theorem usePass_leaf_use (name attributes : Text) :
    (usePass name).leaf (.use name attributes) = [.found (Text.trimRight attributes)] := by
  have hl : (Leaf.use name attributes).attributes? name = some attributes :=
    Leaf.attributes?_eq_some_iff.mpr rfl
  simp only [usePass, hl]

section Fits

variable {names pending : List Text} {name : Text} (hnames : ∀ name ∈ names, Text.IsName name)
  (hpending : pending ⊆ names) (hname : name ∈ names) {T : Tree} (h : T.Sound names pending)

include h in
/-- An element holds no other of its name. -/
theorem Tree.Sound.attributes?_inside {q : Frame × Tree} (hq : q ∈ T.frames) {attributes : Text}
    (hf : q.1 = .element name attributes) : ∀ r ∈ q.2.frames, r.1.attributes? name = none := by
  intro r hr
  rw [Option.eq_none_iff_forall_not_mem]
  intro inner hinner
  rw [Option.mem_def, Frame.attributes?_eq_some_iff] at hinner
  have hmark : q.1.mark? = some ("</" ++ name ++ ">") := by
    rw [hf]
    rfl
  refine h.nested q hq _ hmark r hr ?_
  rw [hinner]
  rfl

include hnames hpending hname h

theorem elementPass_fits (huses : ∀ l ∈ T.leaves, l.attributes? name = none) :
    (elementPass name).Fits (readElement name) T := by
  have hleaf : ∀ l ∈ T.leaves, Text.Nowhere (BeginsTag name) l.source :=
    fun l hl ↦ (h.leaf l hl).nowhere_beginsTag hnames hpending hname (huses l hl)
  have hframe : ∀ q ∈ T.frames, q.1.attributes? name = none →
      Text.Nowhere (BeginsTag name) q.1.opening ∧ Text.Nowhere (BeginsTag name) q.1.closing :=
    fun q hq ↦ (h.frame q hq).nowhere_beginsTag hnames hpending hname
  refine ⟨fun l hl ↦ ?_, fun q hq hf ↦ ?_, ?_⟩
  · exact .of_nowhere ((hleaf l hl).mono fun _ ↦ beginsTag_of_readElement)
  · obtain ⟨hopening, hclosing⟩ := hframe q hq (Option.map_eq_none_iff.mp hf)
    exact ⟨hopening.mono fun _ ↦ beginsTag_of_readElement,
      hclosing.mono fun _ ↦ beginsTag_of_readElement⟩
  · rintro ⟨f, body⟩ hq a hf
    obtain ⟨attributes, hattributes, rfl⟩ := Option.map_eq_some_iff.mp hf
    obtain rfl := Frame.attributes?_eq_some_iff.mp hattributes
    obtain ⟨-, hfits, -⟩ := h.frame _ hq
    have hbody : Text.Nowhere (BeginsTag name) body.source := by
      obtain ⟨hleaves, hframes⟩ := Tree.subset_of_mem_frames hq
      exact Tree.nowhere_source (fun l hl ↦ hleaf l (hleaves hl))
        fun r hr ↦ hframe r (hframes hr) (h.attributes?_inside hq rfl r hr)
    refine .found (List.cons_ne_nil _ _) fun rest ↦ readElement_eq_some_iff.mpr ⟨?_, ?_⟩
    · refine readOpening_eq_some_iff.mpr ⟨?_, ?_, hfits.within⟩
      · simp only [Frame.opening, Frame.closing, List.cons_append, List.append_assoc,
          List.nil_append]
      · have hend := hfits.atWordEnd (by decide) (by decide)
          (body.source ++ ("</" ++ name ++ ">" ++ rest))
        rwa [List.append_assoc, List.singleton_append] at hend
    · exact (hbody.mono fun _ ↦ .inr).firstBehind

theorem usePass_fits (hlink : name ≠ linkName) :
    (usePass name).Fits (readSelfClosing name) T := by
  refine ⟨fun l hl ↦ ?_, fun q hq _ ↦ ?_, fun q _ a hf ↦ by cases hf⟩
  · cases hattributes : l.attributes? name with
    | none =>
      rw [usePass_leaf_of_none hattributes]
      have hnowhere := (h.leaf l hl).nowhere_beginsTag hnames hpending hname hattributes
      exact .of_nowhere (hnowhere.mono fun _ ↦ beginsTag_of_readSelfClosing)
    | some attributes =>
      obtain rfl := Leaf.attributes?_eq_some_iff.mp hattributes
      obtain ⟨-, -, hfits, -⟩ := h.leaf _ hl
      rw [usePass_leaf_use]
      refine .found (List.cons_ne_nil _ _) fun rest ↦ readSelfClosing_eq_some_iff.mpr
        ⟨attributes, rfl, readOpening_eq_some_iff.mpr ⟨?_, ?_, ?_⟩⟩
      · simp only [Leaf.source, List.cons_append, List.append_assoc, List.nil_append]
      · have hend := hfits.atWordEnd (by decide) (by decide) rest
        simpa only [List.cons_append, List.append_assoc, List.nil_append] using hend
      · simp [hfits.within]
  · cases hattributes : q.1.attributes? name with
    | none =>
      obtain ⟨hopening, hclosing⟩ :=
        (h.frame q hq).nowhere_beginsTag hnames hpending hname hattributes
      exact ⟨hopening.mono fun _ ↦ beginsTag_of_readSelfClosing,
        hclosing.mono fun _ ↦ beginsTag_of_readSelfClosing⟩
    | some attributes =>
      have hsound := h.frame q hq
      rw [Frame.attributes?_eq_some_iff.mp hattributes] at hsound ⊢
      obtain ⟨-, hfits, hslash⟩ := hsound
      rw [if_neg hlink] at hslash
      exact ⟨nowhere_readSelfClosing_opening (hnames name hname)
        (hfits.untagged.beginsTag hname) hfits hslash.1,
        nowhere_readSelfClosing_closing (hnames name hname)⟩

end Fits

namespace Tree

variable {names pending : List Text} {name : Text} (hnames : ∀ name ∈ names, Text.IsName name)
  (hpending : pending ⊆ names) (hname : name ∈ names) {T : Tree} (h : T.Sound names pending)

include hnames hpending hname h

/-- **The pass over elements changes the frames of a tree.** -/
theorem substitute_elements (huses : ∀ l ∈ T.leaves, l.attributes? name = none)
    {write : Text × Text → Text} {opening : Text → Text} {closing : Text}
    (hwrite : ∀ attributes body,
      write (attributes, body) = opening attributes ++ (body ++ closing)) :
    Text.substitute (readElement name) write T.source =
      (T.map id (Frame.lowerElement name opening closing)).source := by
  refine Pass.substitute_source (elementPass_fits hnames hpending hname h huses) ⟨?_, ?_, ?_⟩
  · exact fun l _ ↦ Text.flatMap_write_map_plain write l.source
  · exact fun q _ hf ↦ Frame.lowerElement_of_none (Option.map_eq_none_iff.mp hf)
  · rintro ⟨f, body⟩ hq a hf
    obtain ⟨attributes, hattributes, rfl⟩ := Option.map_eq_some_iff.mp hf
    obtain rfl := Frame.attributes?_eq_some_iff.mp hattributes
    refine ⟨?_, map_eq_self (fun _ _ ↦ rfl) fun r hr ↦ ?_⟩
    · rw [hwrite, Frame.lowerElement, hattributes]
      rfl
    · exact Frame.lowerElement_of_none (h.attributes?_inside hq rfl r hr)

/-- **The pass over tags that close themselves changes the leaves of a tree.** -/
theorem substitute_uses (hlink : name ≠ linkName) (write : Text → Text) :
    Text.substitute (readSelfClosing name) write T.source =
      (T.map (Leaf.lowerUse name write) id).source := by
  refine Pass.substitute_source (usePass_fits hnames hpending hname h hlink)
    ⟨fun l hl ↦ ?_, fun _ _ _ ↦ rfl, fun q _ a hf ↦ by cases hf⟩
  cases hattributes : l.attributes? name with
  | none =>
    rw [usePass_leaf_of_none hattributes, Leaf.lowerUse_of_none hattributes]
    exact Text.flatMap_write_map_plain write l.source
  | some attributes =>
    rw [Leaf.lowerUse, hattributes]
    obtain rfl := Leaf.attributes?_eq_some_iff.mp hattributes
    rw [usePass_leaf_use]
    exact List.append_nil _

end Tree

end Markup

end PageCompiler
