import PageCompiler.Proofs.RewrittenScripts

/-!
# Places in a script

The lexer takes a script lexeme by lexeme and looks ahead while it does. Here the same reading is
told character by character, without looking ahead: a place in a script is known by the frames
around it and by what has begun there and is not over (`Script.Place`), and one character leads from
one place to the next. Scripts are then read part by part, since reading a part leads to a place and
the next part is read from there (`Script.Place.walk_append`).

## Agreement with the lexer

Where a lexeme ends, the place is one from which reading goes on as from the beginning of something
new, as far as the next character tells (`Script.Place.Rests`). That is the invariant of a run of
the lexer: each step leads from such a place to such a place (`Script.Passes`). So the zones of a
script and the text of its template literals can be read off the places
(`Script.marks_eq_zones`, `Script.literalText_eq`).
-/

namespace PageCompiler

variable {c : Char} {t : Text}

namespace Script

/-! ## Places -/

inductive Quote where
  | single
  | double
  deriving DecidableEq, Repr

def Quote.char : Quote → Char
  | single => '\''
  | double => '"'

/-- What has begun at a place of a script and is not over. -/
inductive Pending where
  | nothing
  /-- A slash in code, with which a remark may begin. -/
  | slash
  /-- A dollar sign in the text of a template literal, with which a hole may begin. -/
  | dollar
  /-- An escape in the text of a template literal. -/
  | escape
  | string (quote : Quote)
  /-- An escape in a string literal. -/
  | stringEscape (quote : Quote)
  /-- A remark that ends with the line. -/
  | lineRemark
  | remark
  /-- A star in a remark, with which it may end. -/
  | star
  deriving DecidableEq, Repr

structure Place where
  /-- What encloses it, innermost first. -/
  frames : List Frame
  /-- What has begun there. -/
  pending : Pending
  deriving DecidableEq, Repr

namespace Place

def start : Place := ⟨[], .nothing⟩

/-- The place after a character of the text of a template literal. -/
def stepLiteral (outer : List Frame) (pending : Pending) (c : Char) : Place :=
  if c = '\\' then ⟨.literal :: outer, .escape⟩
  else if c = '\x60' then ⟨outer, .nothing⟩
  else if pending = .dollar ∧ c = '\x7b' then ⟨.hole :: .literal :: outer, .nothing⟩
  else if c = '$' then ⟨.literal :: outer, .dollar⟩
  else ⟨.literal :: outer, .nothing⟩

/-- The place after a character of code. -/
def stepCode (frames : List Frame) (pending : Pending) (c : Char) : Place :=
  if c = '\'' then ⟨frames, .string .single⟩
  else if c = '"' then ⟨frames, .string .double⟩
  else if c = '\x60' then ⟨.literal :: frames, .nothing⟩
  else if pending = .slash ∧ c = '/' then ⟨frames, .lineRemark⟩
  else if pending = .slash ∧ c = '*' then ⟨frames, .remark⟩
  else if c = '\x7b' ∧ frames ≠ [] then ⟨.brace :: frames, .nothing⟩
  else if c = '\x7d' ∧ frames ≠ [] then ⟨frames.tail, .nothing⟩
  else if c = '/' then ⟨frames, .slash⟩
  else ⟨frames, .nothing⟩

/-- The place after a character where nothing is under way that goes on regardless. -/
def stepOpen (frames : List Frame) (pending : Pending) (c : Char) : Place :=
  match frames with
  | .literal :: outer => stepLiteral outer pending c
  | _ => stepCode frames pending c

def step (p : Place) (c : Char) : Place :=
  match p.pending with
  | .string quote =>
    if c = '\\' then ⟨p.frames, .stringEscape quote⟩
    else if c = quote.char ∨ c = '\n' then ⟨p.frames, .nothing⟩
    else p
  | .stringEscape quote => ⟨p.frames, .string quote⟩
  | .lineRemark => if c = '\n' then ⟨p.frames, .nothing⟩ else p
  | .remark => if c = '*' then ⟨p.frames, .star⟩ else p
  | .star =>
    if c = '/' then ⟨p.frames, .nothing⟩ else if c = '*' then p else ⟨p.frames, .remark⟩
  | .escape => ⟨p.frames, .nothing⟩
  | .nothing | .slash | .dollar => stepOpen p.frames p.pending c

def walk (p : Place) (t : Text) : Place := t.foldl step p

@[simp] theorem walk_nil (p : Place) : p.walk [] = p := rfl

@[simp] theorem walk_cons (p : Place) (c : Char) (t : Text) :
    p.walk (c :: t) = (p.step c).walk t := rfl

theorem walk_append (p : Place) (t u : Text) : p.walk (t ++ u) = (p.walk t).walk u :=
  List.foldl_append

/-- Whether a place is in the text of a template literal. -/
def InLiteral (p : Place) : Prop := p.frames.head? = some .literal

instance (p : Place) : Decidable p.InLiteral := inferInstanceAs (Decidable (_ = _))

/-- The characters of a text that belong to the text of template literals, read from a place on. The
sign that ends such a text is one of them, and the sign that opens a hole. -/
def literalPart (p : Place) : Text → Text
  | [] => []
  | c :: t => (if p.InLiteral then [c] else []) ++ literalPart (p.step c) t

@[simp] theorem literalPart_nil (p : Place) : p.literalPart [] = [] := rfl

theorem literalPart_append (p : Place) (t u : Text) :
    p.literalPart (t ++ u) = p.literalPart t ++ (p.walk t).literalPart u := by
  induction t generalizing p with
  | nil => rfl
  | cons c t ih =>
    rw [List.cons_append, literalPart, ih, literalPart, List.append_assoc, walk_cons]

/-- The zone of a character at a place, where one more character is looked at. -/
def zone (p : Place) (c : Char) (next : Option Char) : Zone :=
  match p.pending with
  | .string _ | .stringEscape _ | .remark | .star | .escape => .inert
  | .lineRemark => if c = '\n' then .code else .inert
  | .nothing | .slash | .dollar =>
    if p.InLiteral ∨ c = '\'' ∨ c = '"' ∨ c = '\x60' then .inert
    else if p.pending = .slash ∧ (c = '/' ∨ c = '*') then .inert
    else if c = '/' ∧ (next = some '/' ∨ next = some '*') then .inert
    else .code

/-- The zones of a text that is read from a place on. -/
def zones (p : Place) : Text → Marked
  | [] => []
  | c :: t => (c, p.zone c t.head?) :: zones (p.step c) t

theorem text_zones (p : Place) (t : Text) : (p.zones t).text = t := by
  induction t generalizing p with
  | nil => rfl
  | cons c t ih => rw [zones, Marked.text_cons, ih]

theorem length_zones (p : Place) (t : Text) : (p.zones t).length = t.length := by
  have htext := congrArg List.length (p.text_zones t)
  rwa [Marked.text, List.length_map] at htext

end Place

/-! ## Where something new begins -/

/-- Whether reading goes on from a place in front of a text as if nothing had begun there. -/
inductive Place.Rests : Place → Text → Prop
  | nothing (frames : List Frame) (rest : Text) : Rests ⟨frames, .nothing⟩ rest
  | slash {frames : List Frame} {rest : Text} (hcode : InCode frames)
    (hrest : ∀ d ∈ rest.head?, d ≠ '/' ∧ d ≠ '*') : Rests ⟨frames, .slash⟩ rest
  | dollar {outer : List Frame} {rest : Text} (hrest : rest.head? ≠ some '\x7b') :
    Rests ⟨.literal :: outer, .dollar⟩ rest
  | lineRemark {frames : List Frame} {rest : Text} (hcode : InCode frames)
    (hrest : ∀ d ∈ rest.head?, d = '\n') : Rests ⟨frames, .lineRemark⟩ rest
  | ended (p : Place) : Rests p []

variable {p : Place}

namespace Place

theorem stepOpen_of_inCode {frames : List Frame} (h : InCode frames) (pending : Pending)
    (c : Char) : stepOpen frames pending c = stepCode frames pending c := by
  unfold stepOpen
  split
  · exact absurd rfl h
  · rfl

theorem not_inLiteral_of_inCode (h : InCode p.frames) : ¬ p.InLiteral := h

/-- What a character can do to the frames around a place. -/
inductive Crosses (c : Char) : List Frame → List Frame → Prop
  | stay (frames : List Frame) : Crosses c frames frames
  | literal (hc : c = '\x60') (frames : List Frame) : Crosses c frames (.literal :: frames)
  | inside {frames : List Frame} (hc : c = '\x7b') (hframes : frames ≠ []) (frame : Frame) :
    Crosses c frames (frame :: frames)
  | leave (hc : c = '\x60' ∨ c = '\x7d') (frame : Frame) (outer : List Frame) :
    Crosses c (frame :: outer) outer

theorem crosses_stepLiteral (outer : List Frame) (pending : Pending) (c : Char) :
    Crosses c (.literal :: outer) (stepLiteral outer pending c).frames := by
  rw [stepLiteral]
  split_ifs with hescape hclose hhole hdollar
  · exact .stay _
  · exact .leave (.inl hclose) .literal outer
  · exact .inside hhole.2 (List.cons_ne_nil _ _) .hole
  · exact .stay _
  · exact .stay _

theorem crosses_stepCode (frames : List Frame) (pending : Pending) (c : Char) :
    Crosses c frames (stepCode frames pending c).frames := by
  rw [stepCode]
  split_ifs with hsingle hdouble hliteral hline hremark hopen hclose hslash
  · exact .stay _
  · exact .stay _
  · exact .literal hliteral frames
  · exact .stay _
  · exact .stay _
  · exact .inside hopen.1 hopen.2 .brace
  · obtain ⟨frame, outer, rfl⟩ := List.exists_cons_of_ne_nil hclose.2
    exact .leave (.inr hclose.1) frame outer
  · exact .stay _
  · exact .stay _

theorem crosses_step (p : Place) (c : Char) : Crosses c p.frames (p.step c).frames := by
  obtain ⟨frames, pending⟩ := p
  have hopen : Crosses c frames (stepOpen frames pending c).frames := by
    unfold stepOpen
    split
    · exact crosses_stepLiteral _ pending c
    · exact crosses_stepCode frames pending c
  cases pending with
  | nothing | slash | dollar => exact hopen
  | escape | stringEscape quote => exact .stay frames
  | string quote | lineRemark | remark | star =>
    simp only [step]
    split_ifs <;> exact .stay frames

/-- The frames around a place are left by a closing sign only. -/
theorem frames_step_ne_nil (hp : p.frames ≠ []) (hliteral : c ≠ '\x60') (hbrace : c ≠ '\x7d') :
    (p.step c).frames ≠ [] := by
  have hcrosses := crosses_step p c
  generalize (p.step c).frames = after at hcrosses ⊢
  generalize p.frames = frames at hcrosses hp
  cases hcrosses with
  | stay => exact hp
  | literal | inside => exact List.cons_ne_nil _ _
  | leave hc => exact absurd hc (by simp [hliteral, hbrace])

theorem frames_step_of_nil (hp : p.frames = []) (hc : c ≠ '\x60') : (p.step c).frames = [] := by
  have hcrosses := crosses_step p c
  rw [hp] at hcrosses
  generalize (p.step c).frames = after at hcrosses ⊢
  cases hcrosses with
  | stay => rfl
  | literal hliteral => exact absurd hliteral hc
  | inside _ hframes => exact absurd rfl hframes

theorem Rests.step {d : Char} {rest : Text} (h : p.Rests (d :: rest)) :
    p.step d = Place.step ⟨p.frames, .nothing⟩ d := by
  cases h with
  | nothing => rfl
  | slash hcode hrest =>
    obtain ⟨hslash, hstar⟩ := hrest d rfl
    change stepOpen _ _ d = stepOpen _ _ d
    rw [stepOpen_of_inCode hcode, stepOpen_of_inCode hcode]
    simp [stepCode, hslash, hstar]
  | dollar hrest =>
    have hne : d ≠ '\x7b' := fun heq ↦ hrest (heq ▸ rfl)
    change stepLiteral _ _ d = stepLiteral _ _ d
    simp [stepLiteral, hne]
  | lineRemark hcode hrest =>
    obtain rfl := hrest d rfl
    change _ = stepOpen _ _ _
    rw [stepOpen_of_inCode hcode]
    rfl

theorem Rests.zone {d : Char} {rest : Text} (h : p.Rests (d :: rest)) (next : Option Char) :
    p.zone d next = Place.zone ⟨p.frames, .nothing⟩ d next := by
  cases h with
  | nothing => rfl
  | slash hcode hrest =>
    obtain ⟨hslash, hstar⟩ := hrest d rfl
    simp [Place.zone, hslash, hstar, InLiteral]
  | dollar hrest => simp [Place.zone, InLiteral]
  | lineRemark hcode hrest =>
    obtain rfl := hrest d rfl
    have hliteral := not_inLiteral_of_inCode (p := ⟨_, .nothing⟩) hcode
    simp [Place.zone, hliteral]

/-- From a place where something new begins, one reads as from a place where nothing has begun. -/
theorem Rests.zones_eq {rest : Text} (h : p.Rests rest) :
    p.zones rest = Place.zones ⟨p.frames, .nothing⟩ rest := by
  cases rest with
  | nil => rfl
  | cons d rest => rw [Place.zones, Place.zones, h.zone, h.step]

theorem Rests.literalPart_eq {rest : Text} (h : p.Rests rest) :
    p.literalPart rest = Place.literalPart ⟨p.frames, .nothing⟩ rest := by
  cases rest with
  | nil => rfl
  | cons d rest =>
    rw [Place.literalPart, Place.literalPart, h.step]
    rfl

end Place

/-! ## Reading a part -/

/-- `Reads z p t rest q`: reading `t` in front of `rest` leads from the place `p` to the place `q`,
all of `t` is in the zone `z`, and it is in the text of a template literal if `p` is. -/
structure Reads (z : Zone) (p : Place) (t rest : Text) (q : Place) : Prop where
  walk_eq : p.walk t = q
  zones_eq : p.zones (t ++ rest) = within z t ++ q.zones rest
  /-- The part of it that is in template literals. -/
  literal_eq : p.literalPart t = if p.InLiteral then t else []

namespace Reads

variable {z : Zone} {p q : Place} {c : Char} {t rest : Text}

theorem nil (z : Zone) (p : Place) (rest : Text) : Reads z p [] rest p :=
  ⟨rfl, rfl, (ite_self _).symm⟩

theorem cons (hzone : p.zone c (t ++ rest).head? = z)
    (hsame : t ≠ [] → ((p.step c).InLiteral ↔ p.InLiteral)) (after : Reads z (p.step c) t rest q) :
    Reads z p (c :: t) rest q where
  walk_eq := after.walk_eq
  zones_eq := by rw [List.cons_append, Place.zones, hzone, after.zones_eq]; rfl
  literal_eq := by
    rw [Place.literalPart, after.literal_eq]
    cases t with
    | nil => split_ifs <;> rfl
    | cons d t =>
      simp only [hsame (List.cons_ne_nil d t)]
      split_ifs <;> rfl

theorem single (hzone : p.zone c rest.head? = z) (hstep : p.step c = q) : Reads z p [c] rest q := by
  subst hstep
  exact .cons hzone (fun h ↦ absurd rfl h) (.nil z _ rest)

theorem append {r : Place} {u : Text} (front : Reads z p t (u ++ rest) q)
    (hsame : q.InLiteral ↔ p.InLiteral) (after : Reads z q u rest r) :
    Reads z p (t ++ u) rest r where
  walk_eq := by rw [Place.walk_append, front.walk_eq, after.walk_eq]
  zones_eq := by
    rw [List.append_assoc, front.zones_eq, after.zones_eq, within_append, List.append_assoc]
  literal_eq := by
    rw [Place.literalPart_append, front.walk_eq, front.literal_eq, after.literal_eq]
    simp only [hsame]
    split_ifs <;> rfl

end Reads

/-- The text of a string literal is inert, and after its end nothing is pending. -/
theorem exists_reads_string {quote : Quote} {e : Ending} (frames : List Frame)
    (tail : StringTail quote.char t e) (rest : Text) :
    ∃ pending, Reads .inert ⟨frames, .string quote⟩ t rest ⟨frames, pending⟩ ∧
      (e = .closed → pending = .nothing) := by
  have hquote : quote.char ≠ '\\' := by cases quote <;> decide
  induction tail with
  | quote => exact ⟨.nothing, .single rfl (by simp [Place.step, hquote]), fun _ ↦ rfl⟩
  | lineFeed => exact ⟨.nothing, .single rfl (by simp [Place.step]), fun _ ↦ rfl⟩
  | missing => exact ⟨.string quote, .nil _ _ _, fun h ↦ absurd h (by decide)⟩
  | missingEscape =>
    exact ⟨.stringEscape quote, .single rfl rfl, fun h ↦ absurd h (by decide)⟩
  | escape c _ ih =>
    obtain ⟨pending, hreads, hclosed⟩ := ih
    exact ⟨pending, .cons rfl (fun _ ↦ Iff.rfl) (.cons rfl (fun _ ↦ Iff.rfl) hreads), hclosed⟩
  | @char c t e hescape hend hfeed _ ih =>
    obtain ⟨pending, hreads, hclosed⟩ := ih
    have hstep : Place.step ⟨frames, .string quote⟩ c = ⟨frames, .string quote⟩ := by
      simp [Place.step, hescape, hend, hfeed]
    refine ⟨pending, .cons rfl (fun _ ↦ by rw [hstep]) (by rwa [hstep]), hclosed⟩

theorem reads_lineRemark (frames : List Frame) (hline : '\n' ∉ t) (rest : Text) :
    Reads .inert ⟨frames, .lineRemark⟩ t rest ⟨frames, .lineRemark⟩ := by
  induction t with
  | nil => exact .nil _ _ _
  | cons c t ih =>
    obtain ⟨hc, ht⟩ := not_or.mp (List.mem_cons.not.mp hline)
    have hstep : Place.step ⟨frames, .lineRemark⟩ c = ⟨frames, .lineRemark⟩ := if_neg (Ne.symm hc)
    refine .cons (if_neg (Ne.symm hc)) (fun _ ↦ by rw [hstep]) ?_
    rw [hstep]
    exact ih ht

/-- The text of a remark is inert. Whether it ends in a star depends on what is read, so both places
are considered; a slash after a star does not come up, since the sign is not in the text. -/
theorem exists_reads_remark (frames : List Frame) (hinside : ¬ ['*', '/'] <:+: t) (rest : Text)
    (starred : Bool) (hstar : starred = true → t.head? ≠ some '/') :
    ∃ starred' : Bool, Reads .inert ⟨frames, if starred then .star else .remark⟩ t rest
      ⟨frames, if starred' then .star else .remark⟩ := by
  induction t generalizing starred with
  | nil => exact ⟨starred, .nil _ _ _⟩
  | cons c t ih =>
    obtain ⟨hhead, ht⟩ := not_or.mp (List.infix_cons_iff.not.mp hinside)
    have hzone : ∀ n, Place.zone ⟨frames, if starred then .star else .remark⟩ c n = .inert := by
      intro n
      cases starred <;> rfl
    have hstep : Place.step ⟨frames, if starred then .star else .remark⟩ c =
        ⟨frames, if c == '*' then .star else .remark⟩ := by
      cases starred with
      | false =>
        by_cases hc : c = '*' <;> simp [Place.step, hc]
      | true =>
        have hslash : c ≠ '/' := fun heq ↦ hstar rfl (by rw [heq]; rfl)
        by_cases hc : c = '*' <;> simp [Place.step, hc, hslash]
    obtain ⟨starred', hreads⟩ := ih ht (c == '*') fun hc hslash ↦ by
      obtain ⟨u, rfl⟩ := List.head?_eq_some_iff.mp hslash
      rw [beq_iff_eq.mp hc] at hhead
      exact hhead ⟨u, rfl⟩
    exact ⟨starred', .cons (hzone _) (fun _ ↦ by rw [hstep]; rfl) (by rwa [hstep])⟩

/-! ## One step of the lexer -/

/-- What a step of the lexer takes is read from where nothing is pending to a place where something
new begins. -/
def Passes (frames : List Frame) (blocked : Bool) (c : Char) (cs : Text) : Prop :=
  ∃ lexeme after flag rest, next frames blocked c cs = (lexeme, after, flag, rest) ∧
    ∃ q : Place, q.frames = after ∧ q.Rests rest ∧
      Reads (zoneAt frames c cs) ⟨frames, .nothing⟩ lexeme.source rest q

theorem passes_literal (outer : List Frame) (blocked : Bool) (c : Char) (cs : Text) :
    Passes (.literal :: outer) blocked c cs := by
  have hzone : ∀ c n, Place.zone ⟨.literal :: outer, .nothing⟩ c n = .inert := by
    simp [Place.zone, Place.InLiteral]
  rcases literal_cases c cs with rfl | rfl | ⟨inside, rfl, rfl⟩ | ⟨hescape, hclose, hhole⟩
  · cases cs with
    | nil => exact ⟨_, _, _, _, rfl, ⟨_, .escape⟩, rfl, .ended _, .single (hzone _ _) rfl⟩
    | cons d cs =>
      exact ⟨_, _, _, _, rfl, ⟨_, .nothing⟩, rfl, .nothing _ _,
        .cons (hzone _ _) (fun _ ↦ Iff.rfl) (.single rfl rfl)⟩
  · exact ⟨_, _, _, _, rfl, ⟨outer, .nothing⟩, rfl, .nothing _ _, .single (hzone _ _) rfl⟩
  · have hdollar : ∀ n, Place.zone ⟨.literal :: outer, .dollar⟩ '\x7b' n = .inert := by
      simp [Place.zone, Place.InLiteral]
    exact ⟨_, _, _, _, rfl, ⟨.hole :: .literal :: outer, .nothing⟩, rfl, .nothing _ _,
      .cons (hzone _ _) (fun _ ↦ Iff.rfl) (.single (hdollar _) rfl)⟩
  · refine ⟨_, _, _, _, next_literal_char hescape hclose hhole, ?_⟩
    by_cases hdollar : c = '$'
    · subst hdollar
      exact ⟨⟨.literal :: outer, .dollar⟩, rfl, .dollar (hhole rfl), .single (hzone _ _) rfl⟩
    · refine ⟨⟨.literal :: outer, .nothing⟩, rfl, .nothing _ _, .single (hzone _ _) ?_⟩
      change Place.stepLiteral _ _ _ = _
      simp [Place.stepLiteral, hescape, hclose, hdollar]

section InCode

variable {frames : List Frame} (h : InCode frames) {c : Char} {cs : Text}

include h

theorem zone_eq_zoneAt : Place.zone ⟨frames, .nothing⟩ c cs.head? = zoneAt frames c cs := by
  have hliteral := Place.not_inLiteral_of_inCode (p := ⟨frames, .nothing⟩) h
  rw [zoneAt_of_inCode h]
  simp [Place.zone, hliteral]

theorem step_of_inCode (pending : Pending) (hpending : pending = .nothing ∨ pending = .slash) :
    Place.step ⟨frames, pending⟩ c = Place.stepCode frames pending c := by
  rcases hpending with rfl | rfl <;> exact Place.stepOpen_of_inCode h _ c

theorem passes_quote (blocked : Bool) (hquote : c = '\'' ∨ c = '"') :
    Passes frames blocked c cs := by
  obtain ⟨quote, rfl⟩ : ∃ quote : Quote, c = quote.char := by
    rcases hquote with rfl | rfl
    · exact ⟨.single, rfl⟩
    · exact ⟨.double, rfl⟩
  have hescape : quote.char ≠ '\\' := by cases quote <;> decide
  have hstep : Place.step ⟨frames, .nothing⟩ quote.char = ⟨frames, .string quote⟩ := by
    rw [step_of_inCode h _ (.inl rfl)]
    cases quote <;> rfl
  -- What the string literal is read to, and how it goes on there.
  obtain ⟨t, rest, e, rfl, tail, hend⟩ : ∃ t rest e, cs = t ++ rest ∧ StringTail quote.char t e ∧
      (e = .unclosed → rest = []) := by
    rcases exists_stringTail quote.char cs with tail | ⟨t, rest, rfl, tail⟩
    · exact ⟨cs, [], _, (List.append_nil cs).symm, tail, fun _ ↦ rfl⟩
    · exact ⟨t, rest, _, rfl, tail, fun heq ↦ absurd heq (by decide)⟩
  have hzone : zoneAt frames quote.char (t ++ rest) = .inert := by
    rw [zoneAt_of_inCode h, if_pos (by tauto)]
  obtain ⟨pending, hreads, hclosed⟩ := exists_reads_string frames tail rest
  refine ⟨_, _, _, _, next_quote h hquote, ⟨frames, pending⟩, rfl, ?_, ?_⟩
  · rw [stringRest_append tail hescape hend]
    cases e with
    | closed =>
      rw [hclosed rfl]
      exact .nothing _ _
    | unclosed =>
      rw [hend rfl]
      exact .ended _
  · rw [stringRest_append tail hescape hend]
    refine .cons (zone_eq_zoneAt h) (fun _ ↦ by rw [hstep]; rfl) ?_
    rw [hzone, hstep]
    exact hreads

theorem reads_remark_opening {sign : Char} {pending : Pending} {rest : Text} {q : Place}
    (hsign : sign = '/' ∧ pending = .lineRemark ∨ sign = '*' ∧ pending = .remark)
    (hreads : Reads .inert ⟨frames, pending⟩ t rest q) :
    Reads .inert ⟨frames, .nothing⟩ ('/' :: sign :: t) rest q := by
  have hliteral := Place.not_inLiteral_of_inCode (p := ⟨frames, .nothing⟩) h
  have hslash : Place.step ⟨frames, .nothing⟩ '/' = ⟨frames, .slash⟩ :=
    step_of_inCode h _ (.inl rfl)
  have hopens : Place.step ⟨frames, .slash⟩ sign = ⟨frames, pending⟩ := by
    rw [step_of_inCode h _ (.inr rfl)]
    rcases hsign with ⟨rfl, rfl⟩ | ⟨rfl, rfl⟩ <;> rfl
  refine .cons ?_ (fun _ ↦ by rw [hslash]; rfl) ?_
  · rcases hsign with ⟨rfl, -⟩ | ⟨rfl, -⟩ <;> simp [Place.zone, hliteral]
  · rw [hslash]
    refine .cons ?_ (fun _ ↦ by rw [hopens]; rfl) (by rwa [hopens])
    rcases hsign with ⟨rfl, -⟩ | ⟨rfl, -⟩ <;> simp [Place.zone]

theorem passes_lineRemark (blocked : Bool) : Passes frames blocked '/' ('/' :: cs) := by
  have hzone : zoneAt frames '/' ('/' :: cs) = .inert := by rw [zoneAt_of_inCode h]; rfl
  refine ⟨_, _, _, _, next_lineRemark h, ⟨frames, .lineRemark⟩, rfl, .lineRemark h ?_, ?_⟩
  · intro d hd
    have hnot := List.head?_dropWhile_not (· != '\n') cs
    rw [hd] at hnot
    simpa using hnot
  · rw [hzone]
    refine reads_remark_opening h (.inl ⟨rfl, rfl⟩) (reads_lineRemark frames ?_ _)
    intro hmem
    simpa using List.mem_takeWhile_imp hmem

theorem passes_remark (blocked : Bool) : Passes frames blocked '/' ('*' :: cs) := by
  have hzone : zoneAt frames '/' ('*' :: cs) = .inert := by rw [zoneAt_of_inCode h]; rfl
  have hopening : (.remark : Pending) = if false then .star else .remark := rfl
  refine ⟨_, _, _, _, next_remark h, ?_⟩
  rcases exists_remark cs with hopen | ⟨t, rest, rfl, hinside⟩
  · obtain ⟨starred, hreads⟩ := exists_reads_remark frames hopen [] false (by simp)
    rw [remarkRest_of_open hopen, hzone]
    exact ⟨_, rfl, .ended _, reads_remark_opening h (.inr ⟨rfl, hopening⟩) hreads⟩
  · rw [remarkRest_append hinside, hzone]
    obtain ⟨starred, hreads⟩ :=
      exists_reads_remark frames hinside (['*', '/'] ++ rest) false (by simp)
    -- A star leads to the same place from wherever a remark is read.
    have hsign : Reads .inert ⟨frames, if starred then .star else .remark⟩ ['*', '/'] rest
        ⟨frames, .nothing⟩ := by
      cases starred <;> exact .cons rfl (fun _ ↦ Iff.rfl) (.single rfl rfl)
    exact ⟨⟨frames, .nothing⟩, rfl, .nothing _ _,
      reads_remark_opening h (.inr ⟨rfl, hopening⟩) (hreads.append Iff.rfl hsign)⟩

/-- A character of code that begins nothing leads on, and a slash waits for what follows. -/
theorem exists_reads_plain (hplain : IsPlain (!frames.isEmpty) c) (hremark : NoRemark c cs) :
    ∃ q : Place, q.frames = frames ∧ q.Rests cs ∧ Reads .code ⟨frames, .nothing⟩ [c] cs q := by
  have hzone : Place.zone ⟨frames, .nothing⟩ c cs.head? = .code :=
    (zone_eq_zoneAt h).trans (zoneAt_of_isPlain h hplain hremark)
  obtain ⟨hsingle, hdouble, hliteral, hbraces⟩ := hplain
  have hopen : ¬ (c = '\x7b' ∧ frames ≠ []) := fun ⟨hc, hne⟩ ↦ (hbraces (by simp [hne])).1 hc
  have hclose : ¬ (c = '\x7d' ∧ frames ≠ []) := fun ⟨hc, hne⟩ ↦ (hbraces (by simp [hne])).2 hc
  have hstep : Place.step ⟨frames, .nothing⟩ c =
      if c = '/' then ⟨frames, .slash⟩ else ⟨frames, .nothing⟩ := by
    rw [step_of_inCode h _ (.inl rfl)]
    simp [Place.stepCode, hsingle, hdouble, hliteral, hopen, hclose]
  by_cases hslash : c = '/'
  · rw [if_pos hslash] at hstep
    exact ⟨⟨frames, .slash⟩, rfl, .slash h (hremark hslash), .single hzone hstep⟩
  · rw [if_neg hslash] at hstep
    exact ⟨⟨frames, .nothing⟩, rfl, .nothing _ _, .single hzone hstep⟩

theorem step_quiet (hquiet : IsQuiet c) {pending : Pending}
    (hpending : pending = .nothing ∨ pending = .slash) :
    Place.step ⟨frames, pending⟩ c = ⟨frames, .nothing⟩ := by
  obtain ⟨hsingle, hdouble, hliteral, hbraces⟩ := hquiet.isPlain true
  have hslash : c ≠ '/' := hquiet.ne _ (by decide) (by decide)
  have hstar : c ≠ '*' := hquiet.ne _ (by decide) (by decide)
  rw [step_of_inCode h _ hpending]
  simp [Place.stepCode, hsingle, hdouble, hliteral, hbraces, hslash, hstar]

theorem zone_quiet (hquiet : IsQuiet c) (next : Option Char) :
    Place.zone ⟨frames, .nothing⟩ c next = .code := by
  have houtside := Place.not_inLiteral_of_inCode (p := ⟨frames, .nothing⟩) h
  obtain ⟨hsingle, hdouble, hliteral, -⟩ := hquiet.isPlain true
  have hslash : c ≠ '/' := hquiet.ne _ (by decide) (by decide)
  simp [Place.zone, houtside, hsingle, hdouble, hliteral, hslash]

theorem reads_quiet {w : Text} (hquiet : ∀ d ∈ w, IsQuiet d) (rest : Text) :
    Reads .code ⟨frames, .nothing⟩ w rest ⟨frames, .nothing⟩ := by
  induction w with
  | nil => exact .nil _ _ _
  | cons c w ih =>
    have hc := hquiet c List.mem_cons_self
    have hstep := step_quiet h hc (.inl rfl)
    refine .cons (zone_quiet h hc _) (fun _ ↦ by rw [hstep]) ?_
    rw [hstep]
    exact ih fun d hd ↦ hquiet d (List.mem_cons_of_mem c hd)

theorem step_dollar {pending : Pending} (hpending : pending = .nothing ∨ pending = .slash) :
    Place.step ⟨frames, pending⟩ '$' = ⟨frames, .nothing⟩ := by
  rw [step_of_inCode h _ hpending]
  simp [Place.stepCode]

theorem walk_reference {pending : Pending} (hpending : pending = .nothing ∨ pending = .slash)
    {n : Text} (hname : IsIdentifier n) :
    Place.walk ⟨frames, pending⟩ ('$' :: n) = ⟨frames, .nothing⟩ := by
  rw [Place.walk_cons, step_dollar h hpending, (reads_quiet h hname.isQuiet []).walk_eq]

theorem passes_plain (blocked : Bool) (hplain : IsPlain (!frames.isEmpty) c)
    (hremark : NoRemark c cs) : Passes frames blocked c cs := by
  have hzone := zoneAt_of_isPlain h hplain hremark
  obtain ⟨q, hframes, hrests, hreads⟩ := exists_reads_plain h hplain hremark
  rcases takes_of_isPlain h blocked hplain hremark with ⟨-, -, -, hdollar⟩ |
    ⟨name, rest, rfl, -, hread, hnext, -⟩
  · exact ⟨_, _, _, _, next_plain h hplain hremark fun heq ↦ (hdollar heq).2, q, hframes, hrests,
      by rwa [hzone]⟩
  · obtain ⟨-, rfl, hname, -⟩ := reference?_eq_some_iff.mp hread
    have hstep := step_dollar h (.inl rfl)
    refine ⟨_, _, _, _, hnext, ⟨frames, .nothing⟩, rfl, .nothing _ _, ?_⟩
    rw [hzone]
    refine .cons ((zone_eq_zoneAt h).trans hzone) (fun _ ↦ by rw [hstep]) ?_
    rw [hstep]
    exact reads_quiet h hname.isQuiet rest

end InCode

/-- **Every step of the lexer passes** from one place where something new begins to the next. -/
theorem passes_next (frames : List Frame) (blocked : Bool) (c : Char) (cs : Text) :
    Passes frames blocked c cs := by
  by_cases h : InCode frames
  · have hliteral := Place.not_inLiteral_of_inCode (p := ⟨frames, .nothing⟩) h
    rcases code_cases (!frames.isEmpty) c cs with hquote | rfl | ⟨inside, rfl, rfl⟩ |
      ⟨inside, rfl, rfl⟩ | ⟨hnested, rfl⟩ | ⟨hnested, rfl⟩ | ⟨hplain, hremark⟩
    · exact passes_quote h blocked hquote
    · exact ⟨_, _, _, _, next_literal h, ⟨.literal :: frames, .nothing⟩, rfl, .nothing _ _,
        .single (zone_eq_zoneAt h) (step_of_inCode h _ (.inl rfl))⟩
    · exact passes_lineRemark h blocked
    · exact passes_remark h blocked
    · have hne : frames ≠ [] := by simpa using hnested
      refine ⟨_, _, _, _, next_brace h hne, ⟨.brace :: frames, .nothing⟩, rfl, .nothing _ _,
        .single (zone_eq_zoneAt h) ?_⟩
      rw [step_of_inCode h _ (.inl rfl)]
      simp [Place.stepCode, hne]
    · have hne : frames ≠ [] := by simpa using hnested
      refine ⟨_, _, _, _, next_unbrace h hne, ⟨frames.tail, .nothing⟩, rfl, .nothing _ _,
        .single (zone_eq_zoneAt h) ?_⟩
      rw [step_of_inCode h _ (.inl rfl)]
      simp [Place.stepCode, hne]
    · exact passes_plain h blocked hplain hremark
  · obtain ⟨outer, rfl⟩ := List.head?_eq_some_iff.mp (not_not.mp h)
    exact passes_literal outer blocked c cs

/-! ## A run -/

/-- A script is what the next step takes and the rest, read from place to place as in `Passes`. -/
theorem exists_reads_next (frames : List Frame) (blocked : Bool) (c : Char) (cs : Text) :
    let step := next frames blocked c cs
    step.1.source ++ step.2.2.2 = c :: cs ∧
      ∃ q : Place, q.frames = step.2.1 ∧ q.Rests step.2.2.2 ∧
        Reads (zoneAt frames c cs) ⟨frames, .nothing⟩ step.1.source step.2.2.2 q := by
  obtain ⟨lexeme, after, flag, rest, hnext, hreads⟩ := passes_next frames blocked c cs
  refine ⟨source_next frames blocked c cs, ?_⟩
  rw [hnext]
  exact hreads

/-- **The zones of a script can be read off its places.** -/
theorem marks_eq_zones {script : Text} (h : p.Rests script) :
    marks p.frames script = p.zones script := by
  generalize hframes : p.frames = frames
  fun_induction marks frames script generalizing p with
  | case1 => rfl
  | case2 frames c cs step =>
    rename_i ih
    obtain ⟨hsource, q, hafter, hrests, hreads⟩ := exists_reads_next frames true c cs
    rw [h.zones_eq, hframes, ← hsource, hreads.zones_eq, ih hrests hafter]

/-- The characters of a script inside the given frames that belong to the text of template literals,
in the lexer's account. The sign that ends such a text is one of them, and the sign that opens a
hole. -/
def literalText (frames : List Frame) (script : Text) : Text :=
  match script with
  | [] => []
  | c :: cs =>
    let step := next frames true c cs
    (if frames.head? = some .literal then step.1.source else []) ++
      literalText step.2.1 step.2.2.2
termination_by script.length
decreasing_by
  have := length_next_le frames true c cs
  simp only [List.length_cons]
  omega

/-- **The text of the template literals can be read off the places of a script.** -/
theorem literalText_eq {script : Text} (h : p.Rests script) :
    literalText p.frames script = p.literalPart script := by
  generalize hframes : p.frames = frames
  fun_induction literalText frames script generalizing p with
  | case1 => rfl
  | case2 frames c cs step =>
    rename_i ih
    obtain ⟨hsource, q, hafter, hrests, hreads⟩ := exists_reads_next frames true c cs
    rw [h.literalPart_eq, hframes, ← hsource, Place.literalPart_append, hreads.literal_eq,
      hreads.walk_eq, ih hrests hafter]
    rfl

theorem literalText_nil (script : Text) : literalText [] script = Place.start.literalPart script :=
  literalText_eq (p := .start) (.nothing [] script)

/-! ## Replacing references -/

/-- Whether a text is a word among others: there is something, and no blank in it. -/
def IsInk (w : Text) : Prop := w ≠ [] ∧ ∀ c ∈ w, isBlank c = false

/-- `Alike p t u`: two texts that are read alike from the place `p` on. They differ in words of
code, each of which leads to the same place as the other. -/
inductive Alike : Place → Text → Text → Prop
  | done (p : Place) : Alike p [] []
  | char {p : Place} {c : Char} {t u : Text} (after : Alike (p.step c) t u) :
    Alike p (c :: t) (c :: u)
  | word {p q : Place} {w w' t u : Text} (hw : IsInk w) (hw' : IsInk w')
    (hplace : p.walk w = q) (hplace' : p.walk w' = q) (hliteral : p.literalPart w = [])
    (hliteral' : p.literalPart w' = []) (after : Alike q t u) : Alike p (w ++ t) (w' ++ u)

namespace Alike

variable {p : Place} {t u : Text}

theorem symm (h : Alike p t u) : Alike p u t := by
  induction h with
  | done p => exact .done p
  | char _ ih => exact .char ih
  | word hw hw' hplace hplace' hliteral hliteral' _ ih =>
    exact .word hw' hw hplace' hplace hliteral' hliteral ih

theorem append_left {s : Text} (h : Alike (p.walk s) t u) : Alike p (s ++ t) (s ++ u) := by
  induction s generalizing p with
  | nil => exact h
  | cons c s ih => exact .char (ih h)

theorem walk_eq (h : Alike p t u) : p.walk u = p.walk t := by
  induction h with
  | done p => rfl
  | char _ ih => exact ih
  | word _ _ hplace hplace' _ _ _ ih =>
    rw [Place.walk_append, Place.walk_append, hplace, hplace', ih]

theorem literalPart_eq (h : Alike p t u) : p.literalPart u = p.literalPart t := by
  induction h with
  | done p => rfl
  | char _ ih => rw [Place.literalPart, Place.literalPart, ih]
  | word _ _ hplace hplace' hliteral hliteral' _ ih =>
    rw [Place.literalPart_append, Place.literalPart_append, hplace, hplace', hliteral, hliteral',
      ih]

theorem eq_nil (h : Alike p [] u) : u = [] := by
  generalize ht : ([] : Text) = t at h
  cases h with
  | done => rfl
  | char => cases ht
  | word hw => exact absurd (List.append_eq_nil_iff.mp ht.symm).1 hw.1

/-- A blank is no part of a word: where the one text is cut at a blank, so is the other. -/
theorem exists_append_cons {front back : Text} (hc : isBlank c = true)
    (h : Alike p (front ++ c :: back) u) :
    ∃ front' back', u = front' ++ c :: back' ∧ Alike p front front' ∧
      Alike ((p.walk front).step c) back back' := by
  generalize ht : front ++ c :: back = t at h
  induction h generalizing front with
  | done => exact absurd ht (by simp)
  | @char p d t u after ih =>
    cases front with
    | nil =>
      obtain ⟨rfl, rfl⟩ := List.cons.inj ht
      exact ⟨[], u, rfl, .done p, after⟩
    | cons e front =>
      obtain ⟨rfl, rest⟩ := List.cons.inj ht
      obtain ⟨front', back', rfl, hfront, hback⟩ := ih rest
      exact ⟨e :: front', back', rfl, .char hfront, hback⟩
  | @word p q w w' t u hw hw' hplace hplace' hliteral hliteral' after ih =>
    -- The blank comes after the word, since there is none in it.
    rcases List.append_eq_append_iff.mp ht with ⟨mid, hmid, hrest⟩ | ⟨mid, rfl, hmid⟩
    · cases mid with
      | nil =>
        obtain ⟨front', back', rfl, hfront, hback⟩ := ih (show [] ++ c :: back = t from hrest)
        rw [List.append_nil] at hmid
        subst hmid
        refine ⟨w' ++ front', back', by simp, ?_, by rwa [hplace]⟩
        simpa using Alike.word hw hw' hplace hplace' hliteral hliteral' hfront
      | cons d mid =>
        obtain ⟨rfl, -⟩ := List.cons.inj hrest
        exact absurd (hw.2 c (by simp [hmid])) (by simp [hc])
    · obtain ⟨front', back', rfl, hfront, hback⟩ := ih hmid.symm
      refine ⟨w' ++ front', back', by simp,
        .word hw hw' hplace hplace' hliteral hliteral' hfront, ?_⟩
      rwa [Place.walk_append, hplace]

theorem mem_of_isBlank (hc : isBlank c = true) (h : Alike p t u) (hmem : c ∈ t) : c ∈ u := by
  obtain ⟨front, back, rfl⟩ := List.append_of_mem hmem
  obtain ⟨front', back', rfl, -, -⟩ := h.exists_append_cons hc
  simp

theorem isPrefix_of_isBlank {b : Text} (hb : ∀ c ∈ b, isBlank c = true) (h : Alike p t u)
    (hbegins : b <+: t) : b <+: u := by
  induction b generalizing p t u with
  | nil => exact List.nil_prefix
  | cons c b ih =>
    obtain ⟨hc, hb⟩ := List.forall_mem_cons.mp hb
    obtain ⟨back, rfl⟩ := hbegins
    obtain ⟨front', back', rfl, hfront, hback⟩ :=
      exists_append_cons hc (show Alike p ([] ++ c :: (b ++ back)) u from h)
    rw [hfront.eq_nil, List.nil_append, List.prefix_cons_inj]
    exact ih hb hback (List.prefix_append b back)

theorem isBlankText_eq (h : Alike p t u) : Text.isBlankText u = Text.isBlankText t := by
  have hinked : ∀ {w : Text}, IsInk w → ∀ t, Text.isBlankText (w ++ t) = false := by
    intro w hw t
    obtain ⟨d, w, rfl⟩ := List.exists_cons_of_ne_nil hw.1
    simp [Text.isBlankText, hw.2 d List.mem_cons_self]
  induction h with
  | done => rfl
  | char _ ih => exact congrArg (isBlank _ && ·) ih
  | word hw hw' => rw [hinked hw, hinked hw']

end Alike

theorem IsQuiet.isBlank (h : IsQuiet c) : PageCompiler.isBlank c = false := by
  rcases h with hword | rfl
  · exact isBlank_of_isWord hword
  · decide

theorem alike_name {frames : List Frame} (h : InCode frames) {pending : Pending}
    (hpending : pending = .nothing ∨ pending = .slash) {n : Text} (hname : IsIdentifier n)
    {u : Text} (after : Alike ⟨frames, .nothing⟩ t u) :
    Alike ⟨frames, pending⟩ ('$' :: n ++ t) (n ++ (".value" : Text) ++ u) := by
  have hvalue : ∀ c ∈ n ++ (".value" : Text), IsQuiet c := by
    intro c hc
    rcases List.mem_append.mp hc with hc | hc
    · exact hname.isQuiet c hc
    · exact isQuiet_value c hc
  have houtside : ∀ pending, ¬ (Place.mk frames pending).InLiteral :=
    fun pending ↦ Place.not_inLiteral_of_inCode (p := ⟨frames, pending⟩) h
  have hreads := reads_quiet h hname.isQuiet ([] : Text)
  -- The first character settles what was pending, and the others lead on from there.
  obtain ⟨d, ds, hsplit⟩ : ∃ d ds, n ++ (".value" : Text) = d :: ds :=
    List.exists_cons_of_ne_nil (by simp [hname.ne_nil])
  rw [hsplit] at hvalue ⊢
  have hd := hvalue d List.mem_cons_self
  have hds := reads_quiet h (fun c hc ↦ hvalue c (List.mem_cons_of_mem d hc)) ([] : Text)
  have hstep := step_quiet h hd hpending
  refine .word ⟨List.cons_ne_nil _ _, ?_⟩ ⟨List.cons_ne_nil _ _, fun c hc ↦ (hvalue c hc).isBlank⟩
    (q := ⟨frames, .nothing⟩) ?_ ?_ ?_ ?_ after
  · intro c hc
    rcases List.mem_cons.mp hc with rfl | hc
    · decide
    · exact (hname.isQuiet c hc).isBlank
  · exact walk_reference h hpending hname
  · rw [Place.walk_cons, hstep, hds.walk_eq]
  · rw [Place.literalPart, step_dollar h hpending, hreads.literal_eq, if_neg (houtside _),
      if_neg (houtside _)]
    rfl
  · rw [Place.literalPart, hstep, hds.literal_eq, if_neg (houtside _), if_neg (houtside _)]
    rfl

/-- Where a dollar sign of code comes next, at most a slash is pending. -/
theorem Place.Rests.pending_of_dollar {rest : Text} (h : p.Rests ('$' :: rest))
    (hcode : InCode p.frames) : p.pending = .nothing ∨ p.pending = .slash := by
  cases h with
  | nothing => exact .inl rfl
  | slash => exact .inr rfl
  | dollar => exact absurd rfl hcode
  | lineRemark _ hrest => exact absurd (hrest '$' rfl) (by decide)

theorem source_ne_nil {frames after : List Frame} {blocked flag : Bool} {cs rest : Text}
    {lexeme : Lexeme} (h : next frames blocked c cs = (lexeme, after, flag, rest)) :
    lexeme.source ≠ [] := by
  intro hnil
  have hsource := source_next frames blocked c cs
  have hlength := length_next_le frames blocked c cs
  rw [h] at hsource hlength
  rw [hnil, List.nil_append] at hsource
  rw [hsource, List.length_cons] at hlength
  omega

theorem of_next_reference {frames after : List Frame} {blocked flag : Bool} {cs rest name : Text}
    (h : next frames blocked c cs = (.reference name, after, flag, rest)) :
    c = '$' ∧ InCode frames ∧ IsIdentifier name ∧ after = frames := by
  rcases next_cases frames blocked c cs with ⟨t, after', rest', hnext, -⟩ | ⟨after', hnext, -⟩ |
    ⟨name', rest', hdollar, hcode, hread, hnext, -⟩
  · rw [hnext] at h
    cases h
  · rw [hnext] at h
    cases h
  · rw [hnext] at h
    cases h
    exact ⟨hdollar, hcode, (reference?_eq_some_iff.mp hread).2.2.1, rfl⟩

theorem Place.Rests.walk_eq {rest : Text} (h : p.Rests (t ++ rest)) (hne : t ≠ []) :
    p.walk t = Place.walk ⟨p.frames, .nothing⟩ t := by
  obtain ⟨c, t, rfl⟩ := List.exists_cons_of_ne_nil hne
  rw [Place.walk_cons, Place.walk_cons, h.step]

/-- **Replacing references leaves a script to be read as before.** The induction is along the run of
the lexer, and the invariant is that the place is one where something new begins. -/
theorem alike_rewrittenFrom (names : List Text) (blocked : Bool) {script : Text}
    (h : p.Rests script) : Alike p script (rewrittenFrom names p.frames blocked script) := by
  generalize hframes : p.frames = frames
  fun_induction lexFrom frames blocked script generalizing p with
  | case1 frames blocked =>
    rw [rewrittenFrom_nil]
    exact .done p
  | case2 frames blocked c cs step =>
    rename_i ih
    obtain ⟨lexeme, after, flag, rest, hnext, q, hafter, hrests, hreads⟩ :=
      passes_next frames blocked c cs
    have hstep : step = (lexeme, after, flag, rest) := hnext
    have hsource : lexeme.source ++ rest = c :: cs := by
      simpa [hnext] using source_next frames blocked c cs
    rw [hstep] at ih
    have hrest : Alike q rest (rewrittenFrom names after flag rest) := ih hrests hafter
    have hwalk : p.walk lexeme.source = q := by
      rw [Place.Rests.walk_eq (hsource ▸ h) (source_ne_nil hnext), hframes, hreads.walk_eq]
    rw [rewrittenFrom_of_next hnext, ← hsource]
    by_cases hsame : lexeme.dereferenced names = lexeme.source
    · rw [hsame]
      exact .append_left (hwalk ▸ hrest)
    · cases lexeme with
      | text t => exact absurd rfl hsame
      | reference name =>
        obtain ⟨rfl, hcode, hname, rfl⟩ := of_next_reference hnext
        have hvalue : Lexeme.dereferenced names (.reference name) = name ++ (".value" : Text) :=
          if_pos (by_contra fun hnot ↦ hsame (if_neg hnot))
        have hpending := Place.Rests.pending_of_dollar h (hframes ▸ hcode)
        have hq : q = ⟨after, .nothing⟩ :=
          hreads.walk_eq.symm.trans (walk_reference hcode (.inl rfl) hname)
        subst hframes
        rw [hvalue]
        exact alike_name hcode hpending hname (hq ▸ hrest)

/-- A script with its references replaced is read like the script. -/
theorem alike_dereference (names : List Text) (script : Text) :
    Alike .start script (dereference names script) :=
  alike_rewrittenFrom names false (.nothing [] script)

end Script

end PageCompiler
