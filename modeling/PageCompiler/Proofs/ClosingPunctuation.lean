import PageCompiler.Proofs.ScriptClosing
import PageCompiler.Proofs.ScriptPlaces

/-!
# What follows the value of a variable

The declaration of a variable puts the expression of a source line into the middle of a line of its
own. What it writes after the expression is code only if the expression leaves nothing open, and a
remark that ended with its line in the source has no end there.

## Places on the way

The place at the end of an expression decides how what follows is read, and it is the same at the
end of the declared value: nothing before the value leaves anything pending, replacing references
leads to the same place, and where the value is an argument of a call, what the call has around it
neither opens nor closes anything. This last is a fact about single characters (`IsIdle`), from
which it follows for texts by walking over them.
-/

namespace PageCompiler

namespace Script

/-! ## Characters that open and close nothing -/

namespace Place

/-- Whether a place is outside of string literals, template literals and remarks that go on beyond
the line. -/
def Outside (p : Place) : Prop :=
  p.frames = [] ∧ (p.pending = .nothing ∨ p.pending = .slash ∨ p.pending = .lineRemark)

instance (p : Place) : Decidable p.Outside := inferInstanceAs (Decidable (_ ∧ _))

/-- Whether what is pending may be so where it is: some things are in template literals alone. -/
def Sound (p : Place) : Prop := p.pending = .escape ∨ p.pending = .dollar → p.InLiteral

/-- What can be pending after a character. -/
structure After (c : Char) (p : Place) : Prop where
  sound : p.Sound
  escape : ∀ quote, p.pending = .stringEscape quote → c = '\\'

theorem after_of_ne {c : Char} {p : Place} (hescape : p.pending ≠ .escape)
    (hdollar : p.pending ≠ .dollar) (hstring : ∀ quote, p.pending ≠ .stringEscape quote) :
    After c p :=
  ⟨fun h ↦ absurd h (by simp [hescape, hdollar]), fun quote h ↦ absurd h (hstring quote)⟩

theorem after_stepOpen (frames : List Frame) (pending : Pending) (c : Char) :
    After c (stepOpen frames pending c) := by
  by_cases hcode : InCode frames
  · rw [stepOpen_of_inCode hcode, stepCode]
    repeat
      refine iteInduction (motive := After c) (fun _ ↦ after_of_ne (by simp) (by simp) (by simp))
        fun _ ↦ ?_
    exact after_of_ne (by simp) (by simp) (by simp)
  · obtain ⟨outer, rfl⟩ := List.head?_eq_some_iff.mp (not_not.mp hcode)
    change After c (stepLiteral outer pending c)
    rw [stepLiteral]
    repeat
      refine iteInduction (motive := After c)
        (fun _ ↦ ⟨by simp [Sound, InLiteral], by simp⟩) fun _ ↦ ?_
    exact after_of_ne (by simp) (by simp) (by simp)

theorem after_step (p : Place) (c : Char) : After c (p.step c) := by
  obtain ⟨frames, pending⟩ := p
  cases pending with
  | nothing | slash | dollar => exact after_stepOpen frames _ c
  | escape | stringEscape quote =>
    exact after_of_ne (by simp [step]) (by simp [step]) (by simp [step])
  | string quote =>
    simp only [step]
    split_ifs with hescape
    · exact ⟨by simp [Sound], fun _ _ ↦ hescape⟩
    · exact after_of_ne (by simp) (by simp) (by simp)
    · exact after_of_ne (by simp) (by simp) (by simp)
  | lineRemark | remark | star =>
    simp only [step]
    split_ifs <;> exact after_of_ne (by simp) (by simp) (by simp)

theorem sound_step (p : Place) (c : Char) : (p.step c).Sound := (after_step p c).sound

theorem sound_walk_start (t : Text) : (start.walk t).Sound := by
  induction t using List.reverseRecOn with
  | nil => simp [Place.Sound, start]
  | append_singleton t c =>
    rw [walk_append]
    exact sound_step _ c

end Place

/-- Whether a character neither opens nor closes anything outside of braces, in code as well as in
strings and remarks. -/
def IsIdle (c : Char) : Prop :=
  c ≠ '\'' ∧ c ≠ '"' ∧ c ≠ '\x60' ∧ c ≠ '/' ∧ c ≠ '*' ∧ c ≠ '\x7d' ∧ c ≠ '\n'

instance (c : Char) : Decidable (IsIdle c) := inferInstanceAs (Decidable (_ ∧ _))

theorem isIdle_of_isBlank {c : Char} (h : isBlank c = true) (hfeed : c ≠ '\n') : IsIdle c := by
  have hne : ∀ d, isBlank d = false → c ≠ d := by
    rintro d hd rfl
    exact Bool.false_ne_true (hd.symm.trans h)
  exact ⟨hne _ (by decide), hne _ (by decide), hne _ (by decide), hne _ (by decide),
    hne _ (by decide), hne _ (by decide), hfeed⟩

theorem IsIdle.isQuote {c : Char} (h : IsIdle c) : Source.isQuote c = false := by
  simp [Source.isQuote, h.1, h.2.1]

section Idle

variable {p : Place} {c : Char} {t : Text}

theorem IsIdle.step_of_code (h : IsIdle c) {pending : Pending}
    (hpending : pending = .nothing ∨ pending = .slash) :
    Place.step ⟨[], pending⟩ c = .start := by
  obtain ⟨hsingle, hdouble, hliteral, hslash, hstar, -, -⟩ := h
  have hcode : InCode [] := by simp [InCode]
  rw [step_of_inCode hcode _ hpending]
  simp [Place.stepCode, hsingle, hdouble, hliteral, hslash, hstar, Place.start]

theorem IsIdle.step_lineRemark (h : IsIdle c) (frames : List Frame) :
    Place.step ⟨frames, .lineRemark⟩ c = ⟨frames, .lineRemark⟩ := by
  obtain ⟨-, -, -, -, -, -, hfeed⟩ := h
  exact if_neg hfeed

/-- A character that opens and closes nothing leads neither out of something nor into something. -/
theorem IsIdle.outside_step_iff (h : IsIdle c) (hp : p.Sound) :
    (p.step c).Outside ↔ p.Outside := by
  obtain ⟨hsingle, hdouble, hliteral, hslash, hstar, hbrace, hfeed⟩ := id h
  obtain ⟨frames, pending⟩ := p
  -- Within braces or a template literal the place is not outside, and stays so.
  by_cases hframes : frames = []
  · subst hframes
    cases pending with
    | nothing => simp [h.step_of_code (.inl rfl), Place.Outside, Place.start]
    | slash => simp [h.step_of_code (.inr rfl), Place.Outside, Place.start]
    | lineRemark => rw [h.step_lineRemark]
    | dollar | escape =>
      have hinside : Place.InLiteral ⟨[], _⟩ := hp (by simp)
      simp [Place.InLiteral] at hinside
    | string quote =>
      have hquote : c ≠ quote.char := by
        cases quote with
        | single => exact hsingle
        | double => exact hdouble
      by_cases hescape : c = '\\' <;> simp [Place.step, Place.Outside, hescape, hquote, hfeed]
    | stringEscape quote => simp [Place.step, Place.Outside]
    | remark => simp [Place.step, Place.Outside, hstar]
    | star => simp [Place.step, Place.Outside, hslash, hstar]
  · have hstep := Place.frames_step_ne_nil (p := ⟨frames, pending⟩) hframes hliteral hbrace
    exact iff_of_false (fun houtside ↦ hstep houtside.1) fun houtside ↦ hframes houtside.1

theorem IsIdle.lineRemark_step_iff (h : IsIdle c) (hp : p.Outside) :
    (p.step c).pending = .lineRemark ↔ p.pending = .lineRemark := by
  obtain ⟨frames, pending⟩ := p
  obtain ⟨rfl, hpending⟩ := hp
  rcases hpending with rfl | rfl | rfl
  · simp [h.step_of_code (.inl rfl), Place.start]
  · simp [h.step_of_code (.inr rfl), Place.start]
  · rw [h.step_lineRemark]

theorem walk_start_of_idle (h : ∀ c ∈ t, IsIdle c) : Place.start.walk t = .start := by
  induction t with
  | nil => rfl
  | cons c t ih =>
    obtain ⟨hc, ht⟩ := List.forall_mem_cons.mp h
    have hstep : Place.start.step c = .start := hc.step_of_code (.inl rfl)
    rw [Place.walk_cons, hstep, ih ht]

theorem outside_walk_iff (h : ∀ c ∈ t, IsIdle c) (hp : p.Sound) :
    (p.walk t).Outside ↔ p.Outside := by
  induction t generalizing p with
  | nil => rfl
  | cons c t ih =>
    obtain ⟨hc, ht⟩ := List.forall_mem_cons.mp h
    rw [Place.walk_cons, ih ht (Place.sound_step p c), hc.outside_step_iff hp]

theorem lineRemark_walk_iff (h : ∀ c ∈ t, IsIdle c) (hp : p.Sound) (houtside : p.Outside) :
    (p.walk t).pending = .lineRemark ↔ p.pending = .lineRemark := by
  induction t generalizing p with
  | nil => rfl
  | cons c t ih =>
    obtain ⟨hc, ht⟩ := List.forall_mem_cons.mp h
    rw [Place.walk_cons, ih ht (Place.sound_step p c) ((hc.outside_step_iff hp).mpr houtside),
      hc.lineRemark_step_iff houtside]

end Idle

/-! ## Calls that make a signal -/

/-- What stands around the key and the first value in a call. -/
structure SignalCall (t key initial : Text) where
  /-- What precedes the key. -/
  front : Text
  /-- The quote before the key. -/
  opening : Char
  /-- The quote after it. -/
  closing : Char
  /-- What divides the key from the value. -/
  comma : Text
  /-- The value, with the blanks around it. -/
  value : Text
  /-- What follows the value. -/
  last : Text
  eq_append : t = front ++ opening :: (key ++ closing :: (comma ++ value ++ last))
  trim_value : initial = Text.trim value
  opening_isQuote : Source.isQuote opening = true
  key_isQuote : ∀ c ∈ key, Source.isQuote c = false
  front_isIdle : ∀ c ∈ front, IsIdle c
  comma_isIdle : ∀ c ∈ comma, IsIdle c
  last_isIdle : ∀ c ∈ last, IsIdle c

theorem exists_signalCall {t key initial : Text} (h : signalCall? t = some (key, initial))
    (hline : '\n' ∉ t) : Nonempty (SignalCall t key initial) := by
  simp only [signalCall?, Option.bind_eq_bind, Option.bind_eq_some_iff] at h
  obtain ⟨t₁, h₁, t₂, h₂, ⟨opening, t₃⟩, h₃, ⟨run, t₄⟩, h₄, ⟨closing, t₅⟩, h₅, t₆, h₆, value,
    hvalue, hsome⟩ := h
  split_ifs at hsome
  obtain ⟨rfl, rfl⟩ := Prod.mk.inj (Option.some.inj hsome)
  dsimp only at h₄ h₅ h₆
  obtain ⟨b₁, hb₁, hblank₁⟩ := Text.exists_append_trimLeft t₁
  obtain ⟨b₂, hb₂, hblank₂⟩ := Text.exists_append_trimLeft t₂
  obtain ⟨b₃, hb₃, hblank₃⟩ := Text.exists_append_trimLeft t₅
  obtain ⟨hopening, hquote⟩ := Text.char?_eq_some_iff.mp h₃
  obtain ⟨hclosing, -⟩ := Text.char?_eq_some_iff.mp h₅
  obtain ⟨closed, semicolon, hsemicolon, hsplit, hclosed⟩ : ∃ closed semicolon : Text,
      (∀ c ∈ semicolon, c = ';') ∧ t₆ = closed ++ semicolon ∧
        Text.before? [')'] (Text.trimRight closed) = some value := by
    cases hbefore : Text.before? [';'] t₆ with
    | none =>
      rw [hbefore] at hvalue
      exact ⟨t₆, [], by simp, (List.append_nil t₆).symm, hvalue⟩
    | some front =>
      rw [hbefore] at hvalue
      exact ⟨front, [';'], by simp, Text.before?_eq_some_iff.mp hbefore, hvalue⟩
  obtain ⟨b₄, hb₄, hblank₄⟩ := Text.exists_trimRight_append closed
  -- The readers took these one after the other.
  have ht : t = ("signal" ++ b₁ ++ ['('] ++ b₂ : Text) ++
      opening :: (run ++ closing :: ((b₃ ++ [',']) ++ value ++ (')' :: b₄ ++ semicolon))) := by
    rw [Text.after?_eq_some_iff.mp h₁, hb₁, Text.after?_eq_some_iff.mp h₂, hb₂, hopening,
      Text.append_of_run? h₄, hclosing, hb₃, Text.after?_eq_some_iff.mp h₆, hsplit, hb₄,
      Text.before?_eq_some_iff.mp hclosed]
    simp
  have hidle : ∀ c, isBlank c = true → c ∈ t → IsIdle c := by
    intro c hc hmem
    refine isIdle_of_isBlank hc ?_
    rintro rfl
    exact hline hmem
  have hword : ∀ c ∈ ("signal" : Text), IsIdle c := by decide
  refine ⟨⟨_, opening, closing, _, value, _, ht, rfl, hquote, ?_, ?_, ?_, ?_⟩⟩
  · intro c hc
    simpa using Text.forall_of_run? h₄ c hc
  · intro c hc
    simp only [List.mem_append, List.mem_singleton] at hc
    rcases hc with ((hc | hc) | rfl) | hc
    · exact hword c hc
    · exact hidle c (hblank₁ c hc) (ht ▸ by simp [hc])
    · decide
    · exact hidle c (hblank₂ c hc) (ht ▸ by simp [hc])
  · intro c hc
    simp only [List.mem_append, List.mem_singleton] at hc
    rcases hc with hc | rfl
    · exact hidle c (hblank₃ c hc) (ht ▸ by simp [hc])
    · decide
  · intro c hc
    simp only [List.mem_append, List.mem_cons] at hc
    rcases hc with (rfl | hc) | hc
    · decide
    · exact hidle c (hblank₄ c hc) (ht ▸ by simp [hc])
    · rw [hsemicolon c hc]
      decide

/-- Whether the key in a call that makes a signal is a string literal of its own: the quotes are the
same, and no escape is pending where the key ends. -/
def HasOwnKey (call : Text) : Prop :=
  ∀ key initial, signalCall? call = some (key, initial) →
    ∃ (front : Text) (quote : Quote) (rest : Text),
      call = front ++ quote.char :: (key ++ quote.char :: rest) ∧
      (∀ c ∈ front, Source.isQuote c = false) ∧
      Place.walk ⟨[], .string quote⟩ key = ⟨[], .string quote⟩

theorem Quote.isQuote_char (quote : Quote) : Source.isQuote quote.char = true := by
  cases quote <;> decide

/-- Text without quotes and line feeds is read alike in both kinds of string literals, and all that
it can leave pending is an escape. -/
theorem exists_walk_string {key : Text} (hkey : ∀ c ∈ key, Source.isQuote c = false)
    (hline : '\n' ∉ key) (escaped : Bool) : ∃ escaped' : Bool, ∀ quote,
      Place.walk ⟨[], if escaped then .stringEscape quote else .string quote⟩ key =
        ⟨[], if escaped' then .stringEscape quote else .string quote⟩ := by
  induction key generalizing escaped with
  | nil => exact ⟨escaped, fun _ ↦ rfl⟩
  | cons c key ih =>
    obtain ⟨hc, hkey⟩ := List.forall_mem_cons.mp hkey
    obtain ⟨hfeed, hline⟩ := not_or.mp (List.mem_cons.not.mp hline)
    have hquote : ∀ quote : Quote, c ≠ quote.char := by
      rintro quote rfl
      exact absurd hc (by simp [quote.isQuote_char])
    obtain ⟨escaped', hwalk⟩ := ih hkey hline (!escaped && c == '\\')
    refine ⟨escaped', fun quote ↦ ?_⟩
    rw [Place.walk_cons, ← hwalk quote]
    congr 1
    cases escaped with
    | true => rfl
    | false => by_cases hescape : c = '\\' <;> simp [Place.step, hescape, hquote, Ne.symm hfeed]

theorem walk_string_of_quote {key : Text} (hkey : ∀ c ∈ key, Source.isQuote c = false)
    (hline : '\n' ∉ key) {quote : Quote}
    (h : Place.walk ⟨[], .string quote⟩ key = ⟨[], .string quote⟩) (quote' : Quote) :
    Place.walk ⟨[], .string quote'⟩ key = ⟨[], .string quote'⟩ := by
  obtain ⟨escaped, hwalk⟩ := exists_walk_string hkey hline false
  have hend : escaped = false := by
    have hsame := (hwalk quote).symm.trans h
    cases escaped with
    | false => rfl
    | true => simp at hsame
  subst hend
  exact hwalk quote'

/-! ## Declarations -/

def closing (v : Variable) : Text := if v.reactive then ");" else ") \x7d;"

theorem walk_start_quiet {w : Text} (h : ∀ c ∈ w, IsQuiet c) : Place.start.walk w = .start :=
  (reads_quiet (by simp [InCode]) h []).walk_eq

theorem walk_string_quiet {w : Text} (h : ∀ c ∈ w, IsQuiet c) (frames : List Frame)
    (quote : Quote) : Place.walk ⟨frames, .string quote⟩ w = ⟨frames, .string quote⟩ := by
  induction w with
  | nil => rfl
  | cons c w ih =>
    obtain ⟨hc, hw⟩ := List.forall_mem_cons.mp h
    have hescape : c ≠ '\\' := hc.ne _ (by decide) (by decide)
    have hfeed : c ≠ '\n' := hc.ne _ (by decide) (by decide)
    have hquote : c ≠ quote.char := by cases quote <;> exact hc.ne _ (by decide) (by decide)
    have hstep : Place.step ⟨frames, .string quote⟩ c = ⟨frames, .string quote⟩ := by
      simp [Place.step, hescape, hfeed, hquote]
    rw [Place.walk_cons, hstep, ih hw]

section Declarations

variable {v : Variable}

theorem walk_key (hname : Text.IsName v.name) (hline : '\n' ∉ v.expression)
    (hkey : HasOwnKey (Text.trim v.expression)) :
    Place.walk ⟨[], .string .single⟩ (signal v).1 = ⟨[], .string .single⟩ := by
  have htrim : '\n' ∉ Text.trim v.expression :=
    fun hmem ↦ hline ((Text.isInfix_trim v.expression).subset hmem)
  rw [signal]
  cases hcall : signalCall? (Text.trim v.expression) with
  | none => exact walk_string_quiet (fun c hc ↦ .inl (hname.2 c hc)) [] .single
  | some call =>
    obtain ⟨key, initial⟩ := call
    obtain ⟨call⟩ := exists_signalCall hcall htrim
    obtain ⟨front, quote, rest, -, -, hwalk⟩ := hkey key initial hcall
    have hfeed : '\n' ∉ key := fun hmem ↦ htrim (call.eq_append ▸ by simp [hmem])
    exact walk_string_of_quote call.key_isQuote hfeed hwalk .single

/-- A declaration is its value between what leaves nothing pending and what closes it. -/
theorem exists_variableDeclaration_around (names : List Text) (hname : Text.IsName v.name)
    (hline : '\n' ∉ v.expression)
    (hkey : v.reactive = true → HasOwnKey (Text.trim v.expression)) :
    ∃ front, variableDeclaration names v = front ++ dereference names (valueOf v) ++ closing v ∧
      Place.start.walk front = .start := by
  have hword : Place.start.walk v.name = .start :=
    walk_start_quiet fun c hc ↦ .inl (hname.2 c hc)
  have hconst : Place.start.walk ("const " : Text) = .start := by decide
  cases hreactive : v.reactive with
  | true =>
    have hcreate : Place.start.walk (" = MTMRouter.create('" : Text) = ⟨[], .string .single⟩ := by
      decide
    have hcomma : Place.walk ⟨[], .string .single⟩ ("', " : Text) = .start := by decide
    refine ⟨"const " ++ v.name ++ " = MTMRouter.create('" ++ (signal v).1 ++ "', ", ?_, ?_⟩
    · rw [variableDeclaration, if_pos hreactive, valueOf, if_pos hreactive, closing,
        if_pos hreactive]
      rfl
    · simp only [Place.walk_append]
      rw [hconst, hword, hcreate, walk_key hname hline (hkey hreactive), hcomma]
  | false =>
    have hopen : Place.start.walk (" = \x7b value: (" : Text) = .start := by decide
    refine ⟨"const " ++ v.name ++ " = \x7b value: (", ?_, ?_⟩
    · rw [variableDeclaration, if_neg (by simp [hreactive]), valueOf, if_neg (by simp [hreactive]),
        closing, if_neg (by simp [hreactive])]
    · simp only [Place.walk_append]
      rw [hconst, hword, hopen]

/-- In an expression that makes a signal, the value stands between what leaves nothing pending and
what opens and closes nothing. -/
theorem exists_initial_around {expression key initial : Text} (hline : '\n' ∉ expression)
    (hcall : signalCall? (Text.trim expression) = some (key, initial))
    (hkey : HasOwnKey (Text.trim expression)) :
    ∃ front last, expression = front ++ initial ++ last ∧ Place.start.walk front = .start ∧
      ∀ c ∈ last, IsIdle c := by
  have htrim : '\n' ∉ Text.trim expression :=
    fun hmem ↦ hline ((Text.isInfix_trim expression).subset hmem)
  obtain ⟨call⟩ := exists_signalCall hcall htrim
  obtain ⟨front, quote, rest, hsplit, hfront, hwalk⟩ := hkey key initial hcall
  obtain ⟨hopening, hclosing⟩ : call.opening = quote.char ∧ call.closing = quote.char := by
    rw [call.eq_append] at hsplit
    -- The first quotes of the call are those around the key.
    have hsame : call.front = front := by
      have htake := congrArg (List.takeWhile fun c ↦ !Source.isQuote c) hsplit
      have hidle := fun c hc ↦ (call.front_isIdle c hc).isQuote
      rwa [Text.takeWhile_append_of_stop (by simpa using hidle) (by simp [call.opening_isQuote]),
        Text.takeWhile_append_of_stop (by simpa using hfront)
          (by simp [quote.isQuote_char])] at htake
    rw [hsame, List.append_cancel_left_eq, List.cons.injEq, List.append_cancel_left_eq,
      List.cons.injEq] at hsplit
    exact ⟨hsplit.1, hsplit.2.1⟩
  obtain ⟨b₁, b₂, hexpression, hb₁, hb₂⟩ := Text.exists_trim_around expression
  obtain ⟨b₃, b₄, hvalue, hb₃, hb₄⟩ := Text.exists_trim_around call.value
  rw [call.eq_append, hopening, hclosing] at hexpression
  rw [hvalue, ← call.trim_value] at hexpression
  have hidle : ∀ c, isBlank c = true → c ∈ expression → IsIdle c := by
    intro c hc hmem
    refine isIdle_of_isBlank hc ?_
    rintro rfl
    exact hline hmem
  refine ⟨b₁ ++ call.front ++ quote.char :: key ++ quote.char :: call.comma ++ b₃,
    b₄ ++ call.last ++ b₂, ?_, ?_, ?_⟩
  · exact hexpression.trans (by simp)
  · have hopen : Place.start.step quote.char = ⟨[], .string quote⟩ := by cases quote <;> decide
    have hclose : Place.step ⟨[], .string quote⟩ quote.char = .start := by cases quote <;> decide
    simp only [Place.walk_append, Place.walk_cons]
    rw [walk_start_of_idle fun c hc ↦ hidle c (hb₁ c hc) (hexpression ▸ by simp [hc]),
      walk_start_of_idle call.front_isIdle, hopen, hwalk, hclose,
      walk_start_of_idle call.comma_isIdle,
      walk_start_of_idle fun c hc ↦ hidle c (hb₃ c hc) (hexpression ▸ by simp [hc])]
  · intro c hc
    simp only [List.mem_append] at hc
    rcases hc with (hc | hc) | hc
    · exact hidle c (hb₄ c hc) (hexpression ▸ by simp [hc])
    · exact call.last_isIdle c hc
    · exact hidle c (hb₂ c hc) (hexpression ▸ by simp [hc])

/-- The value ends outside of everything if the expression does, and in a remark if that does. -/
theorem outside_valueOf (hline : '\n' ∉ v.expression)
    (hkey : v.reactive = true → HasOwnKey (Text.trim v.expression))
    (hends : (Place.start.walk v.expression).Outside) :
    (Place.start.walk (valueOf v)).Outside ∧
      ((Place.start.walk (valueOf v)).pending = .lineRemark ↔
        (Place.start.walk v.expression).pending = .lineRemark) := by
  by_cases hreactive : v.reactive = true
  · rw [valueOf, if_pos hreactive, signal]
    cases hcall : signalCall? (Text.trim v.expression) with
    | none => exact ⟨hends, Iff.rfl⟩
    | some call =>
      obtain ⟨key, initial⟩ := call
      obtain ⟨front, last, hexpression, hfront, hlast⟩ :=
        exists_initial_around hline hcall (hkey hreactive)
      have hwalk : Place.start.walk v.expression = (Place.start.walk initial).walk last := by
        rw [hexpression, Place.walk_append, Place.walk_append, hfront]
      have hsound := Place.sound_walk_start initial
      rw [hwalk] at hends ⊢
      have houtside := (outside_walk_iff hlast hsound).mp hends
      exact ⟨houtside, (lineRemark_walk_iff hlast hsound houtside).symm⟩
  · rw [valueOf, if_neg hreactive]
    exact ⟨hends, Iff.rfl⟩

end Declarations

/-! ## Code after the value -/

namespace Place

theorem zone_of_next {next : Option Char} (h : ∀ d ∈ next, d ≠ '/' ∧ d ≠ '*') (p : Place)
    (c : Char) : p.zone c next = p.zone c none := by
  have hslash : next ≠ some '/' := fun heq ↦ (h '/' heq).1 rfl
  have hstar : next ≠ some '*' := fun heq ↦ (h '*' heq).2 rfl
  simp [zone, hslash, hstar]

/-- Zones are read part by part, where the second part does not make a slash the beginning of a
remark. -/
theorem zones_append (p : Place) (t : Text) {u : Text} (h : ∀ d ∈ u.head?, d ≠ '/' ∧ d ≠ '*') :
    p.zones (t ++ u) = p.zones t ++ (p.walk t).zones u := by
  induction t generalizing p with
  | nil => rfl
  | cons c t ih =>
    have hzone : p.zone c (t ++ u).head? = p.zone c t.head? := by
      cases t with
      | nil => exact zone_of_next h p c
      | cons d t => rfl
    rw [List.cons_append, zones, zones, hzone, ih, walk_cons, List.cons_append]

end Place

theorem zones_closing_iff {p : Place} (h : p.Outside) (v : Variable) :
    p.zones (closing v) = within .code (closing v) ↔ p.pending ≠ .lineRemark := by
  obtain ⟨frames, pending⟩ := p
  obtain ⟨rfl, hpending⟩ := h
  rw [closing]
  rcases hpending with rfl | rfl | rfl <;> split_ifs <;> decide

/-- Whether a text that ends a script is code there, in the sense of the grammar. -/
def EndsInCode (script last : Text) : Prop := ∃ m, IsZoning script (m ++ within .code last)

/-- What a script ends with is code there if it is read as code from where the rest leads. -/
theorem endsInCode_append_iff (front : Text) {last : Text}
    (h : ∀ d ∈ last.head?, d ≠ '/' ∧ d ≠ '*') :
    EndsInCode (front ++ last) last ↔
      (Place.start.walk front).zones last = within .code last := by
  have hmarks : marks [] (front ++ last) =
      Place.start.zones front ++ (Place.start.walk front).zones last := by
    rw [← Place.zones_append Place.start front h]
    exact marks_eq_zones (.nothing [] _)
  simp only [EndsInCode, isZoning_iff, hmarks]
  constructor
  · rintro ⟨m, hm⟩
    have hlength : ((Place.start.walk front).zones last).length = (within .code last).length := by
      rw [Place.length_zones, within, List.length_map]
    exact (List.append_inj_right' hm hlength.symm).symm
  · intro hzones
    exact ⟨_, by rw [hzones]⟩

/-- **What closes a declaration is code, unless a remark precedes it.** -/
theorem closing_is_code_iff {E : Type} {file : Text} {locator : Source.Locator E}
    {parts : FrontMatter.Extracted} {c : Component}
    (hread : (Component.read file locator parts).component = .ok c) {v : Variable} (hv : v ∈ c.vars)
    (hends : (Place.start.walk v.expression).Outside)
    (hkey : v.reactive = true → HasOwnKey (Text.trim v.expression)) (names : List Text) :
    EndsInCode (variableDeclaration names v) (closing v) ↔
      (Place.start.walk v.expression).pending ≠ .lineRemark := by
  have hname := (Component.wellNamed_of_read hread).vars v hv
  have hline := (Component.oneLine_of_read hread).vars v hv
  obtain ⟨front, hdeclaration, hfront⟩ :=
    exists_variableDeclaration_around names hname hline hkey
  obtain ⟨houtside, hremark⟩ := outside_valueOf hline hkey hends
  have hhead : ∀ d ∈ (closing v).head?, d ≠ '/' ∧ d ≠ '*' := by
    rw [closing]
    split_ifs <;> decide
  have hwalk : Place.start.walk (front ++ dereference names (valueOf v)) =
      Place.start.walk (valueOf v) := by
    rw [Place.walk_append, hfront, (alike_dereference names (valueOf v)).walk_eq]
  rw [hdeclaration, endsInCode_append_iff _ hhead, hwalk, zones_closing_iff houtside, Ne, hremark]

/-- A source with a signal whose first value has an open parenthesis in a string literal. -/
def signalSource : Text := "$n = 2\n$sum! = signal(\"total\", '(' + $n); "

theorem signal_declaration_closed :
    ∃ c v, (Component.read "page.mtm" (Source.noLookup : Source.Locator Empty)
        (FrontMatter.extract signalSource)).component = .ok c ∧ v ∈ c.vars ∧ v.reactive = true ∧
      (Place.start.walk v.expression).Outside ∧ HasOwnKey (Text.trim v.expression) ∧
      EndsInCode (variableDeclaration c.variableNames v) (closing v) := by
  have hread : (Component.read "page.mtm" (Source.noLookup : Source.Locator Empty)
      (FrontMatter.extract signalSource)).component =
        .ok (Component.ofSource "page.mtm" signalSource) := rfl
  have hv : (⟨2, "sum", true, "signal(\"total\", '(' + $n);"⟩ : Variable) ∈
      (Component.ofSource "page.mtm" signalSource).vars := by decide +kernel
  have hends : (Place.start.walk ("signal(\"total\", '(' + $n);" : Text)).Outside := by decide
  have hremark : (Place.start.walk ("signal(\"total\", '(' + $n);" : Text)).pending ≠
      .lineRemark := by decide
  have hcall : signalCall? (Text.trim "signal(\"total\", '(' + $n);") =
      some (("total" : Text), ("'(' + $n" : Text)) := by decide +kernel
  have hkey : HasOwnKey (Text.trim "signal(\"total\", '(' + $n);") := by
    intro key initial hsome
    obtain ⟨rfl, rfl⟩ := Prod.mk.inj (Option.some.inj (hcall.symm.trans hsome))
    exact ⟨"signal(", .double, ", '(' + $n);", by decide +kernel, by decide, by decide⟩
  exact ⟨_, _, hread, hv, rfl, hends, hkey,
    (closing_is_code_iff hread hv hends (fun _ ↦ hkey) _).mpr hremark⟩

/-- A remark at the end of an expression swallows what closes the declaration. -/
theorem trailing_remark_swallows_closing :
    ∃ v ∈ (Component.ofSource "page.mtm" "$x = 1 // one").vars,
      (Place.start.walk v.expression).Outside ∧
      variableDeclaration ["x"] v = "const x = \x7b value: (1 // one) \x7d;" ∧
      ¬ EndsInCode (variableDeclaration ["x"] v) (closing v) := by
  refine ⟨⟨1, "x", false, "1 // one"⟩, by decide +kernel, by decide, by decide +kernel, ?_⟩
  have hdeclaration : variableDeclaration ["x"] ⟨1, "x", false, "1 // one"⟩ =
      ("const x = \x7b value: (1 // one" : Text) ++ (") \x7d;" : Text) := by decide +kernel
  rw [hdeclaration]
  exact (endsInCode_append_iff _ (by decide)).not.mpr (by decide)

end Script

end PageCompiler
