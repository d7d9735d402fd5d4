import PageCompiler.Proofs.DeclarationLines

/-!
# Sources put together

Scanning keeps nothing but the block that is open. So a body that leaves no block open can be put in
front of any other one: the tokens of the two together are those of the first, followed by those of
the second, which stand further down by the number of lines of the first (`Source.tokenize_joined`).
Nothing that comes later changes a token, and no block takes lines from behind its end.

Two things are shown of a step and carried along a run. Moving the line number and the block down
moves the events down (`Source.step_down`), and a step never says that a block is not closed, which
is for the end of the lines to say (`Source.isUnclosed_of_mem_step`). The imports are looked for
afterwards, on the lines where they stand then.
-/

namespace PageCompiler

namespace Source

/-! ## Moving down -/

/-- A token that stands further down. -/
def Token.down (count : Int) (t : Token) : Token := { t with line := t.line + count }

def Event.down (count : Int) : Event → Event
  | .token t => .token (t.down count)
  | .unclosedFunction line name => .unclosedFunction (line + count) name
  | .unclosedTemplate line => .unclosedTemplate (line + count)
  | .skipped line text => .skipped (line + count) text

def Block.down (count : Int) : Block → Block
  | .outside => .outside
  | .function line name parameters body => .function (line + count) name parameters body
  | .template line markup => .template (line + count) markup

theorem Block.finish_down (count : Int) (block : Block) :
    (block.down count).finish = block.finish.map (Event.down count) := by
  cases block <;> rfl

/-- What a step does depends on the line number only in what it says of lines. -/
theorem step_down (count number : Int) (block : Block) (line : Text) :
    step (number + count) (block.down count) line =
      ((step number block line).1.map (Event.down count),
        (step number block line).2.down count) := by
  cases block with
  | function start name parameters body =>
    simp only [step, Block.down]
    split_ifs <;> rfl
  | template start markup =>
    simp only [step, Block.down]
    split_ifs <;> rfl
  | outside =>
    simp only [step, Block.down]
    cases readLine line with
    | function name parameters rest =>
      dsimp only
      cases Text.before? ['\x7d'] rest <;> rfl
    | template rest =>
      dsimp only
      split_ifs <;> rfl
    | _ => rfl

theorem scanFrom_down (count number : Int) (block : Block) (ls : List Text) :
    scanFrom (number + count) (block.down count) ls =
      (scanFrom number block ls).map (Event.down count) := by
  induction ls generalizing number block with
  | nil => exact Block.finish_down count block
  | cons line rest ih =>
    rw [scanFrom_cons, scanFrom_cons, step_down, List.map_append, ← ih, Int.add_right_comm]

/-! ## Blocks that are left open -/

/-- The events of the lines without what is to be said at their end, and the block that is open
then. -/
def walk (number : Int) (block : Block) : List Text → List Event × Block
  | [] => ([], block)
  | line :: rest =>
    let stepped := step number block line
    let later := walk (number + 1) stepped.2 rest
    (stepped.1 ++ later.1, later.2)

theorem scanFrom_append (number : Int) (block : Block) (front back : List Text) :
    scanFrom number block (front ++ back) =
      (walk number block front).1 ++
        scanFrom (number + front.length) (walk number block front).2 back := by
  induction front generalizing number block with
  | nil => simp [walk]
  | cons line rest ih =>
    have hnumber : number + 1 + (rest.length : Int) = number + ((line :: rest).length : Int) := by
      simp only [List.length_cons]
      omega
    rw [List.cons_append, scanFrom_cons, ih, hnumber, walk, List.append_assoc]

/-- Scanning is walking to the end, and finishing there. -/
theorem scanFrom_eq_walk (number : Int) (block : Block) (ls : List Text) :
    scanFrom number block ls = (walk number block ls).1 ++ (walk number block ls).2.finish := by
  have happend := scanFrom_append number block ls []
  rwa [List.append_nil] at happend

def Event.isUnclosed : Event → Bool
  | .unclosedFunction .. | .unclosedTemplate .. => true
  | .token _ | .skipped .. => false

theorem isUnclosed_of_mem_step {number : Int} {block : Block} {line : Text} {event : Event}
    (h : event ∈ (step number block line).1) : event.isUnclosed = false := by
  have hnone : event ∉ ([] : List Event) := List.not_mem_nil
  have htoken {t : Token} (h : event ∈ [Event.token t]) : event.isUnclosed = false := by
    rw [List.mem_singleton.mp h]
    rfl
  unfold Source.step at h
  split at h
  · split_ifs at h
    · exact htoken h
    · exact absurd h hnone
  · split_ifs at h
    · exact htoken h
    · exact absurd h hnone
  · split at h
    · exact absurd h hnone
    · exact htoken h
    · exact htoken h
    · exact htoken h
    · exact htoken h
    · rw [List.mem_singleton.mp h]
      rfl
    · split at h
      · exact htoken h
      · exact absurd h hnone
    · split_ifs at h
      · exact htoken h
      · exact absurd h hnone

theorem isUnclosed_of_mem_walk {number : Int} {block : Block} {ls : List Text} {event : Event}
    (h : event ∈ (walk number block ls).1) : event.isUnclosed = false := by
  induction ls generalizing number block with
  | nil => exact absurd h List.not_mem_nil
  | cons line rest ih =>
    rcases List.mem_append.mp h with hstep | hlater
    · exact isUnclosed_of_mem_step hstep
    · exact ih hlater

/-- No block is reported exactly if none is open behind the last line. -/
theorem walk_outside_iff {number : Int} {block : Block} {ls : List Text} :
    (walk number block ls).2 = .outside ↔
      ∀ event ∈ scanFrom number block ls, event.isUnclosed = false := by
  rw [scanFrom_eq_walk]
  constructor
  · intro houtside event hevent
    rw [houtside, Block.finish, List.append_nil] at hevent
    exact isUnclosed_of_mem_walk hevent
  · intro hclosed
    cases hlast : (walk number block ls).2 with
    | outside => rfl
    | function line name parameters body =>
      rw [hlast] at hclosed
      cases hclosed _ (List.mem_append_right _ List.mem_cons_self)
    | template line markup =>
      rw [hlast] at hclosed
      cases hclosed _ (List.mem_append_right _ List.mem_cons_self)

theorem scan_joined {offset : Int} {a : Text} (b : Text)
    (hclosed : ∀ event ∈ scan offset a, event.isUnclosed = false) :
    scan offset (a ++ '\n' :: b) =
      scan offset a ++ (scan offset b).map (Event.down (Text.lines a).length) := by
  have houtside := walk_outside_iff.mpr hclosed
  rw [scan, scan, scan, Text.lines_append_lineFeed, scanFrom_append, scanFrom_eq_walk _ _
    (Text.lines a), houtside, Block.finish, List.append_nil, ← scanFrom_down]
  rfl

/-! ## Looking for the imports -/

section Located

variable {E : Type} {file : Text} {locator : Locator E}

/-- The tokens of one event, after the file of an import was looked for. -/
def Event.located (locator : Locator E) : Event → Except E (List Token)
  | .token ⟨line, .imported name path _⟩ =>
    (locator path line).found.map fun resolved ↦ [⟨line, .imported name path resolved⟩]
  | .token t => .ok [t]
  | _ => .ok []

theorem tokens_locate_cons (event : Event) (rest : List Event) :
    (locate file locator (event :: rest)).tokens =
      (event.located locator).bind fun tokens ↦
        (locate file locator rest).tokens.map (tokens ++ ·) := by
  have hnone : (locate file locator rest).tokens =
      (locate file locator rest).tokens.map (([] : List Token) ++ ·) := by
    cases (locate file locator rest).tokens <;> rfl
  cases event with
  | token t =>
    obtain ⟨line, declaration⟩ := t
    cases declaration with
    | imported name path old =>
      simp only [locate, Event.located]
      cases (locator path line).found <;> rfl
    | _ => rfl
  | _ => exact hnone

theorem tokens_locate_append (front back : List Event) :
    (locate file locator (front ++ back)).tokens =
      (locate file locator front).tokens.bind fun tokens ↦
        (locate file locator back).tokens.map (tokens ++ ·) := by
  induction front with
  | nil =>
    rw [List.nil_append, locate]
    cases (locate file locator back).tokens <;> rfl
  | cons event rest ih =>
    rw [List.cons_append, tokens_locate_cons, tokens_locate_cons, ih]
    cases event.located locator with
    | error e => rfl
    | ok tokens =>
      cases (locate file locator rest).tokens with
      | error e => rfl
      | ok more =>
        cases (locate file locator back).tokens with
        | error e => rfl
        | ok last => exact congrArg Except.ok (List.append_assoc tokens more last).symm

theorem Event.located_down (count : Int) (event : Event) :
    (event.down count).located locator =
      (event.located fun path line ↦ locator path (line + count)).map
        (List.map (Token.down count)) := by
  cases event with
  | token t =>
    obtain ⟨line, declaration⟩ := t
    cases declaration with
    | imported name path old =>
      simp only [Event.down, Token.down, Event.located]
      cases (locator path (line + count)).found <;> rfl
    | _ => rfl
  | _ => rfl

theorem tokens_locate_down (count : Int) (events : List Event) :
    (locate file locator (events.map (Event.down count))).tokens =
      (locate file (fun path line ↦ locator path (line + count)) events).tokens.map
        (List.map (Token.down count)) := by
  induction events with
  | nil => rfl
  | cons event rest ih =>
    rw [List.map_cons, tokens_locate_cons, tokens_locate_cons, ih, Event.located_down]
    cases event.located fun path line ↦ locator path (line + count) with
    | error e => rfl
    | ok tokens =>
      cases (locate file (fun path line ↦ locator path (line + count)) rest).tokens with
      | error e => rfl
      | ok more => exact congrArg Except.ok List.map_append.symm

theorem exists_tokens_locate (hlocator : ∀ path line, ∃ resolved,
    (locator path line).found = .ok resolved) (file : Text) (events : List Event) :
    ∃ tokens, (locate file locator events).tokens = .ok tokens := by
  induction events with
  | nil => exact ⟨[], rfl⟩
  | cons event rest ih =>
    obtain ⟨more, hmore⟩ := ih
    have hevent : ∃ tokens, event.located locator = .ok tokens := by
      unfold Event.located
      split
      · next line name path _ =>
        obtain ⟨resolved, hfound⟩ := hlocator path line
        exact ⟨_, by rw [hfound]; rfl⟩
      · exact ⟨_, rfl⟩
      · exact ⟨_, rfl⟩
    obtain ⟨tokens, htokens⟩ := hevent
    rw [tokens_locate_cons, htokens, hmore]
    exact ⟨tokens ++ more, rfl⟩

theorem exists_tokens_locate_noLookup (file : Text) (events : List Event) :
    ∃ tokens, (locate file (noLookup : Locator E) events).tokens = .ok tokens :=
  exists_tokens_locate (fun _ _ ↦ ⟨none, rfl⟩) file events

end Located

/-- **Sources can be put together.** Where a body leaves no function and no template open, putting
it in front of another one gives its own tokens, followed by those of the other one, which stand
further down by as many lines as it has. If imports are looked for, those of the second body are
looked for on the lines where they stand then, and the first problem is that of the first body, if
it has one. If they are not, nothing can go wrong. -/
theorem tokenize_joined {E : Type} (file : Text) (offset : Int) {a : Text} (b : Text)
    (hclosed : ∀ event ∈ scan offset a, event.isUnclosed = false) :
    let count : Int := (Text.lines a).length
    (∀ locator : Locator E, (tokenize file offset locator (a ++ '\n' :: b)).tokens =
      (tokenize file offset locator a).tokens.bind fun front ↦
        (tokenize file offset (fun path line ↦ locator path (line + count)) b).tokens.map
          fun back ↦ front ++ back.map (Token.down count)) ∧
    ∃ front back : List Token, (tokenize file offset (noLookup : Locator E) a).tokens = .ok front ∧
      (tokenize file offset (noLookup : Locator E) b).tokens = .ok back ∧
      (tokenize file offset (noLookup : Locator E) (a ++ '\n' :: b)).tokens =
        .ok (front ++ back.map (Token.down count)) := by
  intro count
  -- What is not looked for is a case of what is.
  refine (and_iff_left_of_imp fun hlocated ↦ ?_).mpr fun locator ↦ ?_
  · obtain ⟨front, hfront⟩ := exists_tokens_locate_noLookup (E := E) file (scan offset a)
    obtain ⟨back, hback⟩ := exists_tokens_locate_noLookup (E := E) file (scan offset b)
    refine ⟨front, back, hfront, hback, ?_⟩
    have hback' : (tokenize file offset (fun path line ↦ (noLookup : Locator E) path (line + count))
        b).tokens = .ok back := hback
    rw [hlocated, tokenize, hfront, Except.bind, hback', Except.map]
  · rw [tokenize, scan_joined b hclosed, tokens_locate_append, tokens_locate_down]
    simp only [tokenize]
    cases (locate file locator (scan offset a)).tokens with
    | error e => rfl
    | ok front =>
      cases (locate file (fun path line ↦ locator path (line + count)) (scan offset b)).tokens with
      | error e => rfl
      | ok back => rfl

/-- A function that holds what would be a variable outside of it, in front of a stray brace and a
variable. -/
theorem tokenize_joined_function :
    let a := Text.unlines ["$f = (x) => \x7b", "$a! = 1", "\x7d"]
    let b := Text.unlines ["\x7d", "$b = 2"]
    let tokens := fun body ↦ (tokenize "p.mtm" 0 (noLookup : Locator Empty) body).tokens
    (∀ event ∈ scan 0 a, event.isUnclosed = false) ∧
      tokens a = .ok [⟨1, .function "f" "x" "$a! = 1"⟩] ∧
      tokens b = .ok [⟨2, .computed "b" "2"⟩] ∧
      tokens (a ++ '\n' :: b) = .ok [⟨1, .function "f" "x" "$a! = 1"⟩, ⟨5, .computed "b" "2"⟩] := by
  intro a b tokens
  have hclosed : ∀ event ∈ scan 0 a, event.isUnclosed = false := by decide +kernel
  have hfront : tokens a = .ok [⟨1, .function "f" "x" "$a! = 1"⟩] := by rfl
  have hback : tokens b = .ok [⟨2, .computed "b" "2"⟩] := by rfl
  obtain ⟨front, back, hfront', hback', hjoined⟩ :=
    (tokenize_joined (E := Empty) "p.mtm" 0 b hclosed).2
  obtain rfl := Except.ok.inj (hfront.symm.trans hfront')
  obtain rfl := Except.ok.inj (hback.symm.trans hback')
  exact ⟨hclosed, hfront, hback, hjoined⟩

end Source

end PageCompiler
