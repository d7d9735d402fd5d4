import Mathlib.Data.List.Basic
import Mathlib.Data.List.Induction
import Mathlib.Data.List.Nodup
import PageCompiler.OrderedMap

/-!
# Facts about ordered maps

A map that keeps its order is a list of pairs, and nothing in the type says that a key stands in it
once. Everything that makes a list such a map comes from `put`: it never repeats a key, so the keys
of a map that was put together are distinct, and then looking a key up and finding its pair are the
same. `distinct` is the same for plain lists.
-/

namespace PageCompiler

namespace OrderedMap

variable {β : Type}

@[simp] theorem keys_cons (key : Text) (value : β) (m : OrderedMap β) :
    keys ((key, value) :: m) = key :: keys m := rfl

theorem keys_append (m m' : OrderedMap β) : keys (m ++ m') = keys m ++ keys m' := List.map_append

theorem get?_cons (key k : Text) (v : β) (m : OrderedMap β) :
    get? ((k, v) :: m) key = if key = k then some v else get? m key := by
  rw [get?, List.lookup_cons]
  by_cases h : key = k
  · rw [if_pos h, h, beq_self_eq_true]
  · rw [if_neg h, beq_false_of_ne h, get?]

theorem mem_keys {m : OrderedMap β} {key : Text} : key ∈ keys m ↔ ∃ value, (key, value) ∈ m := by
  simp [keys]

theorem mem_of_get? {m : OrderedMap β} {key : Text} {value : β} (h : get? m key = some value) :
    (key, value) ∈ m := by
  obtain ⟨front, back, rfl, -⟩ := List.lookup_eq_some_iff.mp h
  simp

theorem get?_eq_none_iff {m : OrderedMap β} {key : Text} : get? m key = none ↔ key ∉ keys m := by
  induction m with
  | nil => simp [get?, keys]
  | cons pair rest ih =>
    obtain ⟨k, v⟩ := pair
    rw [get?_cons, keys_cons, List.mem_cons]
    by_cases hk : key = k
    · simp [hk]
    · simp [hk, ih]

theorem contains_iff {m : OrderedMap β} {key : Text} : contains m key = true ↔ key ∈ keys m := by
  rw [contains, Option.isSome_iff_ne_none, ne_eq, get?_eq_none_iff, not_not]

theorem get?_of_mem {m : OrderedMap β} (hnodup : (keys m).Nodup) {key : Text} {value : β}
    (h : (key, value) ∈ m) : get? m key = some value := by
  induction m with
  | nil => exact absurd h List.not_mem_nil
  | cons pair rest ih =>
    obtain ⟨k, v⟩ := pair
    obtain ⟨hk, hrest⟩ := List.nodup_cons.mp hnodup
    rw [get?_cons]
    rcases List.mem_cons.mp h with heq | hmem
    · obtain ⟨rfl, rfl⟩ := Prod.mk.inj heq
      rw [if_pos rfl]
    · have hne : key ≠ k := by
        rintro rfl
        exact hk (mem_keys.mpr ⟨value, hmem⟩)
      rw [if_neg hne, ih hrest hmem]

theorem existsUnique_mem {m : OrderedMap β} (hnodup : (keys m).Nodup) {key : Text}
    (h : key ∈ keys m) : ∃! value, (key, value) ∈ m := by
  obtain ⟨value, hvalue⟩ := mem_keys.mp h
  refine ⟨value, hvalue, fun other hother ↦ ?_⟩
  rw [← Option.some_inj, ← get?_of_mem hnodup hother, ← get?_of_mem hnodup hvalue]

/-! ## Putting -/

theorem keys_put (key : Text) (value : β) (m : OrderedMap β) :
    keys (put key value m) = if key ∈ keys m then keys m else keys m ++ [key] := by
  induction m with
  | nil => rfl
  | cons pair rest ih =>
    obtain ⟨k, v⟩ := pair
    rw [put]
    by_cases hk : k = key
    · simp [hk]
    · rw [if_neg hk, keys_cons, keys_cons, ih]
      by_cases hmem : key ∈ keys rest
      · simp [hmem]
      · simp [hmem, Ne.symm hk]

theorem mem_keys_put {key other : Text} {value : β} {m : OrderedMap β} :
    other ∈ keys (put key value m) ↔ other = key ∨ other ∈ keys m := by
  rw [keys_put]
  split_ifs with h
  · constructor
    · exact Or.inr
    · rintro (rfl | hother)
      · exact h
      · exact hother
  · simp [or_comm]

theorem nodup_keys_put {m : OrderedMap β} (hnodup : (keys m).Nodup) (key : Text) (value : β) :
    (keys (put key value m)).Nodup := by
  rw [keys_put]
  split_ifs with h
  · exact hnodup
  · rw [← List.concat_eq_append, List.nodup_concat]
    exact ⟨h, hnodup⟩

theorem put_of_notMem {key : Text} {m : OrderedMap β} (h : key ∉ keys m) (value : β) :
    put key value m = m ++ [(key, value)] := by
  induction m with
  | nil => rfl
  | cons pair rest ih =>
    obtain ⟨k, v⟩ := pair
    obtain ⟨hk, hrest⟩ := not_or.mp (List.mem_cons.not.mp h)
    rw [put, if_neg (Ne.symm hk), ih hrest, List.cons_append]

theorem put_of_get? {key : Text} {value : β} {m : OrderedMap β} (h : get? m key = some value) :
    put key value m = m := by
  induction m with
  | nil => cases h
  | cons pair rest ih =>
    obtain ⟨k, v⟩ := pair
    rw [get?_cons] at h
    by_cases hk : key = k
    · rw [if_pos hk] at h
      rw [put, if_pos hk.symm, Option.some.inj h]
    · rw [if_neg hk] at h
      rw [put, if_neg (Ne.symm hk), ih h]

theorem put_put (key : Text) (old new : β) (m : OrderedMap β) :
    put key new (put key old m) = put key new m := by
  induction m with
  | nil => simp [put]
  | cons pair rest ih =>
    obtain ⟨k, v⟩ := pair
    by_cases hk : k = key
    · simp [put, hk]
    · simp [put, hk, ih]

theorem get?_put_self (key : Text) (value : β) (m : OrderedMap β) :
    get? (put key value m) key = some value := by
  induction m with
  | nil => simp [put, get?]
  | cons pair rest ih =>
    obtain ⟨k, v⟩ := pair
    rw [put]
    by_cases hk : k = key
    · rw [if_pos hk, get?_cons, if_pos hk.symm]
    · rw [if_neg hk, get?_cons, if_neg (Ne.symm hk), ih]

theorem get?_put_of_ne {key other : Text} (hne : other ≠ key) (value : β) (m : OrderedMap β) :
    get? (put key value m) other = get? m other := by
  induction m with
  | nil => rw [put, get?_cons, if_neg hne]
  | cons pair rest ih =>
    obtain ⟨k, v⟩ := pair
    rw [put]
    by_cases hk : k = key
    · subst hk
      rw [if_pos rfl, get?_cons, get?_cons, if_neg hne, if_neg hne]
    · rw [if_neg hk, get?_cons, get?_cons, ih]

end OrderedMap

/-! ## Lists without repetitions -/

theorem exists_of_mem_foldl {α β : Type} {step : List α → β → List α} {p : β → α → Prop}
    (hstep : ∀ seen b a, a ∈ step seen b → a ∈ seen ∨ p b a) {bs : List β} {seen : List α}
    {a : α} (h : a ∈ bs.foldl step seen) : a ∈ seen ∨ ∃ b ∈ bs, p b a := by
  induction bs generalizing seen with
  | nil => exact .inl h
  | cons b rest ih =>
    rw [List.exists_mem_cons_iff, ← or_assoc]
    exact (ih h).imp_left (hstep seen b a)

/-- **A list that gathers each thing once** has what it had and what the other list gives, without
repetitions. -/
theorem nodup_gathered {α β : Type} {step : List α → β → List α} {gives : β → Option α}
    (hnone : ∀ seen b, gives b = none → step seen b = seen)
    (hold : ∀ seen b a, gives b = some a → a ∈ seen → step seen b = seen)
    (hnew : ∀ seen b a, gives b = some a → a ∉ seen → step seen b = seen ++ [a])
    (bs : List β) {seen : List α} (hseen : seen.Nodup) :
    (bs.foldl step seen).Nodup ∧
      ∀ a, a ∈ bs.foldl step seen ↔ a ∈ seen ∨ ∃ b ∈ bs, gives b = some a := by
  induction bs generalizing seen with
  | nil => exact ⟨hseen, by simp⟩
  | cons b bs ih =>
    -- One step keeps the list free of repetitions and adds just what `b` gives.
    have hstep : (step seen b).Nodup ∧ ∀ a, a ∈ step seen b ↔ a ∈ seen ∨ gives b = some a := by
      cases hgives : gives b with
      | none =>
        rw [hnone seen b hgives]
        exact ⟨hseen, by simp⟩
      | some first =>
        by_cases hfirst : first ∈ seen
        · rw [hold seen b first hgives hfirst]
          refine ⟨hseen, fun a ↦ (or_iff_left_of_imp fun heq ↦ ?_).symm⟩
          rwa [← Option.some.inj heq]
        · rw [hnew seen b first hgives hfirst]
          refine ⟨?_, fun a ↦ ?_⟩
          · rw [← List.concat_eq_append, List.nodup_concat]
            exact ⟨hfirst, hseen⟩
          · rw [List.mem_append, List.mem_singleton, Option.some.injEq, eq_comm]
    obtain ⟨hnodup, hmem⟩ := ih hstep.1
    refine ⟨hnodup, fun a ↦ ?_⟩
    rw [List.foldl_cons, hmem, hstep.2, List.exists_mem_cons_iff, or_assoc]

/-- What is gathered stands in the order of its first appearances. -/
theorem foldl_gathered {α β : Type} [DecidableEq α] {step : List α → β → List α}
    {gives : β → Option α} (hnone : ∀ seen b, gives b = none → step seen b = seen)
    (hsome : ∀ seen b a, gives b = some a → step seen b = if a ∈ seen then seen else seen ++ [a])
    (bs : List β) : bs.foldl step [] = (bs.filterMap gives).eraseDups := by
  induction bs using List.reverseRecOn with
  | nil => rfl
  | append_singleton bs b ih =>
    rw [List.foldl_append, ih, List.foldl_cons, List.foldl_nil, List.filterMap_append,
      List.eraseDups_append]
    cases hb : gives b with
    | none =>
      rw [hnone _ b hb, List.filterMap_cons_none hb]
      simp [List.removeAll]
    | some a =>
      rw [hsome _ b a hb, List.filterMap_cons_some hb, List.filterMap_nil]
      generalize bs.filterMap gives = found
      by_cases hmem : a ∈ found
      · rw [if_pos (List.mem_eraseDups.mpr hmem)]
        simp [hmem, List.removeAll]
      · rw [if_neg fun h ↦ hmem (List.mem_eraseDups.mp h)]
        simp [hmem, List.removeAll, List.eraseDups_cons]

theorem nodup_and_mem_distinct (ts : List Text) :
    (distinct ts).Nodup ∧ ∀ t, t ∈ distinct ts ↔ t ∈ [] ∨ ∃ u ∈ ts, some u = some t := by
  refine nodup_gathered (fun _ _ h ↦ ?_) (fun _ _ _ h hmem ↦ ?_) (fun _ _ _ h hmem ↦ ?_) ts
    List.nodup_nil
  · cases h
  · obtain rfl := Option.some.inj h
    exact if_pos hmem
  · obtain rfl := Option.some.inj h
    exact if_neg hmem

theorem mem_distinct {ts : List Text} {t : Text} : t ∈ distinct ts ↔ t ∈ ts := by
  rw [(nodup_and_mem_distinct ts).2]
  simp

theorem nodup_distinct (ts : List Text) : (distinct ts).Nodup := (nodup_and_mem_distinct ts).1

theorem distinct_concat (ts : List Text) (t : Text) :
    distinct (ts ++ [t]) = if t ∈ distinct ts then distinct ts else distinct ts ++ [t] := by
  rw [distinct, List.foldl_append]
  rfl

theorem OrderedMap.foldl_put_eq_map {β : Type} (value : Text → β) (ts : List Text) :
    ts.foldl (fun m key ↦ put key (value key) m) [] =
      (distinct ts).map fun key ↦ (key, value key) := by
  induction ts using List.reverseRecOn with
  | nil => rfl
  | append_singleton ts key ih =>
    have hkeys : keys ((distinct ts).map fun key ↦ (key, value key)) = distinct ts := by
      rw [keys, List.map_map]
      exact List.map_id _
    rw [List.foldl_append, ih, distinct_concat, List.foldl_cons, List.foldl_nil]
    split_ifs with hmem
    · apply put_of_get?
      apply get?_of_mem
      · rw [hkeys]
        exact nodup_distinct ts
      · exact List.mem_map.mpr ⟨key, hmem, rfl⟩
    · rw [← hkeys] at hmem
      rw [put_of_notMem hmem, List.map_append, List.map_singleton]

end PageCompiler
