import PageCompiler.Text.Basic

/-!
# Similar names

Which of the known names look like a misspelt one. Two texts are compared by their matching blocks:
the longest run they have in common, and then, on either side of it, the longest runs there. The
more characters the blocks cover, the more alike the texts are.

In a long text the frequent characters say little, so there a run has to begin with a rarer
character; it may still be extended over frequent ones.
-/

namespace PageCompiler

namespace Similar

/-- A run that two texts have in common: where it begins in each, and its length. -/
structure Block where
  /-- The place in the first text. -/
  first : Nat
  /-- The place in the second text. -/
  second : Nat
  /-- The number of characters. -/
  size : Nat

/-- The characters of a text that are too frequent to begin a run with: those of a text of two
hundred characters or more that make up more than about one in a hundred. -/
def frequent (t : Text) : List Char :=
  if t.length < 200 then []
  else (t.filter fun c ↦ t.length / 100 + 1 < t.count c).eraseDups

/-- The lengths of the common runs that end at a character of the first text and at each character
of the second: one more than for the characters before, and zero where the characters differ. -/
def runsEndingAt (isAnchor : Char → Bool) (c : Char) : (previous : Nat) → List Nat → Text → List Nat
  | _, _, [] => []
  | previous, before, d :: ds =>
    (if c = d && isAnchor d then previous + 1 else 0) ::
      runsEndingAt isAnchor c (before.headD 0) before.tail ds

/-- The best of the runs that end at a character of the first text: a longer one replaces the best
so far. -/
def better (first : Nat) : (second : Nat) → List Nat → Block → Block
  | _, [], best => best
  | second, k :: ks, best =>
    better first (second + 1) ks
      (if best.size < k then ⟨first + 1 - k, second + 1 - k, k⟩ else best)

/-- Goes through the first text, keeping the best run and the lengths of the runs that end at the
character before. -/
def longestFrom (isAnchor : Char → Bool) (u : Text) : Nat → List Nat → Block → Text → Block
  | _, _, best, [] => best
  | first, before, best, c :: cs =>
    let runs := runsEndingAt isAnchor c 0 before u
    longestFrom isAnchor u (first + 1) runs (better first 0 runs best) cs

/-- The number of characters two texts have in common at their beginnings. -/
def commonStart : Text → Text → Nat
  | c :: cs, d :: ds => if c = d then commonStart cs ds + 1 else 0
  | _, _ => 0

/-- The longest run two texts have in common, extended at both ends as far as they agree. -/
def longest (isAnchor : Char → Bool) (t u : Text) : Block :=
  let best := longestFrom isAnchor u 0 [] ⟨0, 0, 0⟩ t
  let back := commonStart (t.take best.first).reverse (u.take best.second).reverse
  let forth := commonStart (t.drop (best.first + best.size)) (u.drop (best.second + best.size))
  ⟨best.first - back, best.second - back, back + best.size + forth⟩

/-- The number of characters in the matching blocks of two texts. -/
def matching (isAnchor : Char → Bool) : (fuel : Nat) → Text → Text → Nat
  | 0, _, _ => 0
  | fuel + 1, t, u =>
    let block := longest isAnchor t u
    if block.size = 0 then 0
    else
      matching isAnchor fuel (t.take block.first) (u.take block.second) + block.size +
        matching isAnchor fuel (t.drop (block.first + block.size))
          (u.drop (block.second + block.size))

/-- A candidate and how alike it is: the characters in matching blocks, out of all characters. -/
structure Score where
  /-- The candidate. -/
  name : Text
  /-- Twice the number of characters in matching blocks. -/
  matched : Nat
  /-- The number of characters of both texts. -/
  total : Nat

/-- How alike a candidate is to a name. Two empty texts are alike. -/
def score (name candidate : Text) : Score :=
  let anchors := frequent name
  let total := candidate.length + name.length
  if total = 0 then ⟨candidate, 1, 1⟩
  else
    ⟨candidate, 2 * matching (fun c ↦ c ∉ anchors) (total + 1) candidate name, total⟩

/-- Whether a score comes no later than another: more alike first, then the later name. -/
def notBelow (a b : Score) : Bool :=
  let x := a.matched * b.total
  let y := b.matched * a.total
  if x = y then Text.notAfter b.name a.name else y < x

/-- The three candidates most like a name, best first, among those of which three fifths of the
characters match. -/
def names (name : Text) (candidates : List Text) : List Text :=
  let close := (candidates.map (score name)).filter fun s ↦ 3 * s.total ≤ 5 * s.matched
  ((close.mergeSort notBelow).take 3).map Score.name

end Similar

end PageCompiler
