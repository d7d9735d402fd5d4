import Mathlib.Data.Nat.Digits.Defs
import PageCompiler.Json
import PageCompiler.Text.Markup
import PageCompiler.Proofs.Divisions

/-!
# Encoded texts

A text is written into markup with references for five characters, and into a script as a string
with escapes. Here are the ways back, as a browser goes them: `Text.unescape` puts the characters in
for the references, and `Json.readText` reads a string off the beginning of a text, with all escapes
that strings may have. What is written comes back as it was, `Text.unescape_escape` and
`Json.readText_writeText`, so that a text is known by either form. A string never breaks a line
(`Json.lineFeed_notMem_writeText`).
-/

namespace PageCompiler

/-! ## Markup -/

namespace Text

/-- The references that are written, with the characters they stand for. -/
def references : List (Text × Char) :=
  [(("&amp;" : Text), '&'), (("&lt;" : Text), '<'), (("&gt;" : Text), '>'),
   (("&quot;" : Text), '"'), (("&#x27;" : Text), '\'')]

def readReference : Reader Char := fun t ↦
  references.findSome? fun reference ↦ (after? reference.1 t).map fun rest ↦ (reference.2, rest)

/-- A text with the characters that its references stand for. -/
def unescape (t : Text) : Text := substitute readReference (fun c ↦ [c]) t

/-- A character is written as its reference, or it is no ampersand and stands for itself. -/
theorem escapeChar_cases (c : Char) :
    (escapeChar c, c) ∈ references ∨ c ≠ '&' ∧ c ≠ '"' ∧ escapeChar c = [c] := by
  by_cases h : c ∈ references.map Prod.snd
  · left
    have hall : ∀ c ∈ references.map Prod.snd, (escapeChar c, c) ∈ references := by decide
    exact hall c h
  · right
    simp only [references, List.map_cons, List.map_nil, List.mem_cons, List.not_mem_nil, or_false,
      not_or] at h
    obtain ⟨hamp, hlt, hgt, hquot, hapos⟩ := h
    refine ⟨hamp, hquot, ?_⟩
    rw [escapeChar, if_neg hamp, if_neg hlt, if_neg hgt, if_neg hquot, if_neg hapos]

theorem readReference_append {name : Text} {c : Char} (h : (name, c) ∈ references) (rest : Text) :
    readReference (name ++ rest) = some (c, rest) := by
  simp only [references, List.mem_cons, List.not_mem_nil, or_false, Prod.mk.injEq] at h
  rcases h with ⟨rfl, rfl⟩ | ⟨rfl, rfl⟩ | ⟨rfl, rfl⟩ | ⟨rfl, rfl⟩ | ⟨rfl, rfl⟩
  · rfl
  · rfl
  · rfl
  · rfl
  · rfl

theorem readReference_of_ne {c : Char} (h : c ≠ '&') (t : Text) :
    readReference (c :: t) = none := by
  refine List.findSome?_eq_none_iff.mpr fun reference hreference ↦ ?_
  have hall : ∀ reference ∈ references, reference.1.head? = some '&' := by decide
  obtain ⟨name, hname⟩ := List.head?_eq_some_iff.mp (hall reference hreference)
  rw [hname, after?_of_ne h, Option.map_none]

theorem unescape_escape (t : Text) : unescape (escape t) = t := by
  induction t with
  | nil => rw [escape, List.flatMap_nil, unescape, substitute, pieces, List.flatMap_nil]
  | cons c cs ih =>
    rw [escape, List.flatMap_cons, ← escape, unescape]
    rcases escapeChar_cases c with hreference | ⟨hc, -, hsame⟩
    · have hne : escapeChar c ≠ [] := by
        intro hnil
        rw [hnil] at hreference
        exact absurd hreference (by simp [references])
      rw [substitute_append_of_some hne (readReference_append hreference _)]
      exact congrArg (c :: ·) ih
    · rw [hsame, List.singleton_append, substitute_cons_of_none (readReference_of_ne hc _)]
      exact congrArg (c :: ·) ih

theorem mem_of_mem_escape {c : Char} {t : Text} (h : c ∈ escape t) :
    c ∈ t ∧ c ≠ '"' ∨ c ∈ ("&amplt;gquo#x27" : Text) := by
  obtain ⟨d, hd, hc⟩ := List.mem_flatMap.mp h
  rcases escapeChar_cases d with hreference | ⟨-, hquot, hsame⟩
  · right
    have hall : ∀ reference ∈ references, ∀ c ∈ reference.1, c ∈ ("&amplt;gquo#x27" : Text) := by
      decide
    exact hall _ hreference c hc
  · left
    rw [hsame, List.mem_singleton] at hc
    rw [hc]
    exact ⟨hd, hquot⟩

theorem quote_notMem_escape (t : Text) : '"' ∉ escape t := by
  intro hmem
  rcases mem_of_mem_escape hmem with ⟨-, hne⟩ | hsign
  · exact hne rfl
  · exact absurd hsign (by decide)

theorem lt_notMem_escape (t : Text) : '<' ∉ escape t := by
  intro h
  obtain ⟨d, -, hd⟩ := List.mem_flatMap.mp h
  rcases escapeChar_cases d with hreference | ⟨-, -, hsame⟩
  · have hall : ∀ reference ∈ references, '<' ∉ reference.1 := by decide
    exact hall _ hreference hd
  · rw [hsame, List.mem_singleton] at hd
    subst hd
    exact absurd hsame (by decide)

end Text

/-! ## Strings -/

namespace Json

def hexDigit? (c : Char) : Option Nat :=
  if '0' ≤ c && c ≤ '9' then some (c.toNat - '0'.toNat)
  else if 'a' ≤ c && c ≤ 'f' then some (10 + (c.toNat - 'a'.toNat))
  else if 'A' ≤ c && c ≤ 'F' then some (10 + (c.toNat - 'A'.toNat))
  else none

def hexValue? (t : Text) : Option Nat :=
  t.foldlM (fun n c ↦ (hexDigit? c).map fun d ↦ 16 * n + d) 0

def readUnit : Reader Nat := fun t ↦
  if 4 ≤ t.length then (hexValue? (t.take 4)).map fun n ↦ (n, t.drop 4) else none

/-- Reads the second unit of a character that takes two. -/
def readSecond (first : Nat) : Reader Char := fun t ↦ do
  let (second, rest) ← readUnit (← Text.after? ['\\', 'u'] t)
  if first < 0xdc00 && 0xdc00 ≤ second && second ≤ 0xdfff then
    some (Char.ofNat (0x10000 + 0x400 * (first - 0xd800) + (second - 0xdc00)), rest)
  else none

/-- Reads a character by its number, after the sign for it. -/
def readNumbered : Reader Char := fun t ↦ do
  let (unit, rest) ← readUnit t
  if unit < 0xd800 || 0xdfff < unit then some (Char.ofNat unit, rest) else readSecond unit rest

/-- The characters that have an escape of their own, by its letter. -/
def escapes : List (Char × Char) :=
  [('"', '"'), ('\\', '\\'), ('/', '/'), ('b', '\x08'), ('f', '\x0c'), ('n', '\n'), ('r', '\r'),
   ('t', '\t')]

def readChar : Reader Char
  | [] => none
  | c :: cs =>
    if c = '\\' then
      match cs with
      | [] => none
      | d :: rest =>
        if d = 'u' then readNumbered rest else (escapes.lookup d).map fun meant ↦ (meant, rest)
    else if c = '"' || c.toNat < 0x20 then none
    else some (c, cs)

def readChars (t : Text) : Option (Text × Text) :=
  match t with
  | [] => none
  | c :: cs =>
    if c = '"' then some ([], cs)
    else
      match readChar (c :: cs) with
      | none => none
      | some (d, rest) =>
        if rest.length ≤ cs.length then (readChars rest).map fun (ds, more) ↦ (d :: ds, more)
        else none
termination_by t.length

def readText : Reader Text := fun t ↦ (Text.after? ['"'] t).bind readChars

theorem hexDigit?_digitChar {d : Nat} (h : d < 16) : hexDigit? (Nat.digitChar d) = some d := by
  have hall : ∀ d : Fin 16, hexDigit? (Nat.digitChar d.val) = some d.val := by decide
  exact hall ⟨d, h⟩

theorem hexValue?_toDigits (n : Nat) : hexValue? (Nat.toDigits 16 n) = some n := by
  induction n using Nat.strong_induction_on with
  | _ n ih =>
    rw [Nat.toDigits_eq_if (by decide)]
    split_ifs with hn
    · simp [hexValue?, hexDigit?_digitChar hn]
    · have hdiv := ih (n / 16) (by omega)
      rw [hexValue?] at hdiv
      rw [hexValue?, List.foldlM_append, hdiv]
      simp [hexDigit?_digitChar (Nat.mod_lt n (by decide : 0 < 16)), Nat.div_add_mod]

theorem hexValue?_replicate (k : Nat) (t : Text) :
    hexValue? (List.replicate k '0' ++ t) = hexValue? t := by
  induction k with
  | zero => rfl
  | succ k ih => exact ih

theorem hexValue?_hex (width n : Nat) : hexValue? (Text.hex width n) = some n := by
  rw [Text.hex, hexValue?_replicate, hexValue?_toDigits]

theorem readUnit_hex {n : Nat} (h : n < 0x10000) (rest : Text) :
    readUnit (Text.hex 4 n ++ rest) = some (n, rest) := by
  have hlength : (Text.hex 4 n).length = 4 := by
    have := Nat.toDigits_length 16 n 4 (by decide) h
    simp only [Text.hex, List.length_append, List.length_replicate]
    omega
  have hfour : 4 ≤ (Text.hex 4 n ++ rest).length := by
    rw [List.length_append, hlength]
    exact Nat.le_add_right 4 _
  rw [readUnit, if_pos hfour, List.take_left' hlength, List.drop_left' hlength,
    hexValue?_hex]
  rfl

/-- The numbers of characters leave out those of the units of which a character takes two. -/
theorem toNat_cases (c : Char) : c.toNat < 0xd800 ∨ 0xdfff < c.toNat ∧ c.toNat < 0x110000 := by
  rcases c.valid with h | ⟨hlow, hhigh⟩
  · exact .inl h
  · exact .inr ⟨hlow, hhigh⟩

theorem readNumbered_hex {n : Nat} (h : n < 0xd800 ∨ 0xdfff < n) (hn : n < 0x10000) (rest : Text) :
    readNumbered (Text.hex 4 n ++ rest) = some (Char.ofNat n, rest) := by
  have hone : (n < 0xd800 || 0xdfff < n) = true := by simpa using h
  simp only [readNumbered, readUnit_hex hn, Option.bind_eq_bind, Option.bind_some, hone, if_true]

theorem readNumbered_pair {n : Nat} (h : n < 0x100000) (rest : Text) :
    readNumbered (Text.hex 4 (0xd800 + n / 0x400) ++
        (unitEscape (0xdc00 + n % 0x400) ++ rest)) = some (Char.ofNat (0x10000 + n), rest) := by
  have hfirst : 0xd800 + n / 0x400 < 0x10000 := by omega
  have hsecond : 0xdc00 + n % 0x400 < 0x10000 := by omega
  have htwo : ¬ (0xd800 + n / 0x400 < 0xd800 || 0xdfff < 0xd800 + n / 0x400) = true := by
    simp only [Bool.or_eq_true, decide_eq_true_eq]
    omega
  have hpair : (0xd800 + n / 0x400 < 0xdc00 && 0xdc00 ≤ 0xdc00 + n % 0x400 &&
      0xdc00 + n % 0x400 ≤ 0xdfff) = true := by
    simp only [Bool.and_eq_true, decide_eq_true_eq]
    omega
  have hvalue : 0x10000 + 0x400 * (0xd800 + n / 0x400 - 0xd800) +
      (0xdc00 + n % 0x400 - 0xdc00) = 0x10000 + n := by omega
  simp only [readNumbered, readUnit_hex hfirst, Option.bind_eq_bind, Option.bind_some, htwo,
    if_false, readSecond, unitEscape, List.append_assoc, Text.after?_append, readUnit_hex hsecond,
    hpair, if_true, hvalue, Bool.false_eq_true]

theorem readChar_unit (n : Nat) (rest : Text) :
    readChar (unitEscape n ++ rest) = readNumbered (Text.hex 4 n ++ rest) := rfl

theorem readChar_escapeChar (asciiOnly : Bool) (c : Char) (rest : Text) :
    readChar (escapeChar asciiOnly c ++ rest) = some (c, rest) := by
  have hcases := toNat_cases c
  have hnumber := Char.ofNat_toNat c
  fun_cases escapeChar asciiOnly c with
  | case1 hc =>
    rw [hc]
    rfl
  | case2 _ hc =>
    rw [hc]
    rfl
  | case3 _ _ hc => exact hc ▸ rfl
  | case4 _ _ _ hc => exact hc ▸ rfl
  | case5 _ _ _ _ hc => exact hc ▸ rfl
  | case6 _ _ _ _ _ hc =>
    rw [hc] at hnumber
    exact hnumber ▸ rfl
  | case7 _ _ _ _ _ _ hc =>
    rw [hc] at hnumber
    exact hnumber ▸ rfl
  | case8 _ _ _ _ _ _ _ hc =>
    rw [readChar_unit, readNumbered_hex (.inl (by omega)) (by omega), hnumber]
  | case9 hquote hslash _ _ _ _ _ hc _ =>
    have hplain : ¬ (c = '"' || c.toNat < 0x20) = true := by simp [hquote, hc]
    simp only [List.singleton_append, readChar, if_neg hslash, if_neg hplain]
  | case10 _ _ _ _ _ _ _ _ _ hc =>
    have hunit : c.toNat < 0xd800 ∨ 0xdfff < c.toNat := hcases.imp_right And.left
    rw [readChar_unit, readNumbered_hex hunit hc, hnumber]
  | case11 _ _ _ _ _ _ _ _ _ hc =>
    have hpair := readNumbered_pair (by omega : c.toNat - 0x10000 < 0x100000) rest
    rw [List.append_assoc, readChar_unit, hpair]
    have hsum : 0x10000 + (c.toNat - 0x10000) = c.toNat := by omega
    rw [hsum, hnumber]

theorem escapeChar_head_ne (asciiOnly : Bool) (c : Char) :
    ∃ d ds, escapeChar asciiOnly c = d :: ds ∧ d ≠ '"' := by
  by_cases hc : c = '"'
  · exact ⟨'\\', ['"'], by rw [escapeChar, if_pos hc], by decide⟩
  · fun_cases escapeChar asciiOnly c with
    | case1 hquote => exact absurd hquote hc
    | case2 | case3 | case4 | case5 | case6 | case7 => exact ⟨'\\', _, rfl, by decide⟩
    | case8 => exact ⟨'\\', _, rfl, by decide⟩
    | case9 => exact ⟨c, [], rfl, hc⟩
    | case10 => exact ⟨'\\', _, rfl, by decide⟩
    | case11 => exact ⟨'\\', _, rfl, by decide⟩

theorem readChars_append {spelled rest : Text} {c : Char}
    (hhead : ∃ d ds, spelled = d :: ds ∧ d ≠ '"')
    (hread : readChar (spelled ++ rest) = some (c, rest)) :
    readChars (spelled ++ rest) = (readChars rest).map fun (ds, more) ↦ (c :: ds, more) := by
  obtain ⟨d, ds, rfl, hd⟩ := hhead
  rw [List.cons_append] at hread ⊢
  have hlength : rest.length ≤ (ds ++ rest).length := by
    rw [List.length_append]
    exact Nat.le_add_left _ _
  rw [readChars, if_neg hd, hread]
  simp only [hlength, if_true]

theorem readChars_cons {asciiOnly : Bool} (c : Char) (rest : Text) :
    readChars (escapeChar asciiOnly c ++ rest) =
      (readChars rest).map fun (ds, more) ↦ (c :: ds, more) :=
  readChars_append (escapeChar_head_ne asciiOnly c) (readChar_escapeChar asciiOnly c rest)

theorem readText_writeText (asciiOnly : Bool) (t rest : Text) :
    readText (writeText asciiOnly t ++ rest) = some (t, rest) := by
  have hchars : readChars (t.flatMap (escapeChar asciiOnly) ++ '"' :: rest) = some (t, rest) := by
    induction t with
    | nil => rw [List.flatMap_nil, List.nil_append, readChars, if_pos rfl]
    | cons c cs ih =>
      rw [List.flatMap_cons, List.append_assoc, readChars_cons, ih]
      rfl
  rw [readText, writeText, List.cons_append, List.cons_append, List.append_assoc]
  exact hchars

/-! ## Line feeds -/

theorem lineFeed_notMem_unitEscape (n : Nat) : '\n' ∉ unitEscape n := by
  rw [unitEscape, List.mem_append, not_or]
  exact ⟨by decide, Text.notMem_hex (by decide) 4 n⟩

theorem lineFeed_notMem_escapeChar (asciiOnly : Bool) (c : Char) :
    '\n' ∉ escapeChar asciiOnly c := by
  fun_cases escapeChar asciiOnly c with
  | case1 | case2 | case3 | case4 | case5 | case6 | case7 => decide
  | case8 => exact lineFeed_notMem_unitEscape _
  | case9 _ _ hfeed =>
    rw [List.mem_singleton]
    exact fun heq ↦ hfeed heq.symm
  | case10 => exact lineFeed_notMem_unitEscape _
  | case11 =>
    rw [List.mem_append, not_or]
    exact ⟨lineFeed_notMem_unitEscape _, lineFeed_notMem_unitEscape _⟩

theorem lineFeed_notMem_writeText (asciiOnly : Bool) (t : Text) :
    '\n' ∉ writeText asciiOnly t := by
  rw [writeText, List.cons_append, List.mem_cons, List.mem_append, List.mem_flatMap]
  rintro (hquote | ⟨c, -, hc⟩ | hquote)
  · exact absurd hquote (by decide)
  · exact lineFeed_notMem_escapeChar asciiOnly c hc
  · exact absurd hquote (by decide)

end Json

end PageCompiler
