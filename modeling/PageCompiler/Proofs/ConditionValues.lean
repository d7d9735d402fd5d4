import PageCompiler.Condition.Value
import PageCompiler.Proofs.Rounding
import PageCompiler.Proofs.SourceNames

/-!
# What conditions evaluate to

Two laws of evaluation. A condition sees nothing but the variables that were declared when it was
read: in two environments that agree on these it evaluates to the same value or fails alike
(`parse_observes_known`). And what is identical is equal, except for lists and records, which are
compared as numbers by the second of these relations and are none (`equal_of_identical_iff`).

The second law is one about numbers. An integer and a floating-point number are identical when they
are equal without rounding, and equal when they are after it; rounding does not come in between,
because a number of the format is the one that its integer is rounded to.
-/

namespace PageCompiler

namespace Condition

/-! ## What a condition sees -/

variable {env : Environment} {v w : Value}

namespace Environment

/-- Whether a variable has no value, or only the absent one. -/
def Lacks (env : Environment) (name : Text) : Prop := ∀ v ∈ OrderedMap.get? env name, v = .null

/-- Whether two environments agree on names: each has the same value in both, or none in either. -/
def AgreeOn (names : List Text) (env env' : Environment) : Prop :=
  ∀ n ∈ names, (∃ v, OrderedMap.get? env n = some v ∧ OrderedMap.get? env' n = some v) ∨
    env.Lacks n ∧ env'.Lacks n

theorem Lacks.operand {name : Text} (h : env.Lacks name) :
    env.operand name = ⟨.null, some name⟩ := by
  rw [Environment.operand]
  cases hget : OrderedMap.get? env name with
  | none => rfl
  | some v => rw [Option.getD_some, h v hget]

theorem AgreeOn.operand {names : List Text} {env' : Environment} (h : AgreeOn names env env')
    {name : Text} (hname : name ∈ names) : env.operand name = env'.operand name := by
  rcases h name hname with ⟨v, hv, hv'⟩ | ⟨hlacks, hlacks'⟩
  · rw [Environment.operand, Environment.operand, hv, hv']
  · rw [hlacks.operand, hlacks'.operand]

end Environment

/-- A condition depends on its variables alone. Which of them are looked at is decided by values
that are the same on both sides. -/
theorem Tree.operand_congr {env' : Environment} {tree : Tree}
    (h : ∀ n ∈ tree.variables, env.operand n = env'.operand n) :
    tree.operand env = tree.operand env' := by
  induction tree with
  | literal value => rfl
  | var name => exact congrArg Except.ok (h name (List.mem_singleton_self name))
  | not inner ih => rw [Tree.operand, Tree.operand, ih h]
  | and left right ihl ihr | or left right ihl ihr | compare op left right ihl ihr =>
    have hleft := ihl fun n hn ↦ h n (List.mem_append_left _ hn)
    have hright := ihr fun n hn ↦ h n (List.mem_append_right _ hn)
    rw [Tree.operand, Tree.operand, hleft, hright]

/-- **A condition sees the declared variables and nothing else.** -/
theorem parse_observes_known {condition : Text} {known : List Text} {tree : Tree}
    (h : parse condition known = .ok tree) :
    (∀ n ∈ tree.variables, n ∈ known) ∧
      ∀ env env', Environment.AgreeOn known env env' → tree.evaluate env = tree.evaluate env' := by
  have hknown := known_of_parse h
  refine ⟨hknown, fun env env' hagree ↦ ?_⟩
  rw [Tree.evaluate, Tree.evaluate,
    Tree.operand_congr fun n hn ↦ hagree.operand (hknown n hn)]

/-- A variable that was not declared may have any value, and null is as good as no value. -/
theorem undeclared_variable_not_seen :
    let env : Environment := [("a", .int 1), ("secret", .bool true)]
    let env' : Environment := [("secret", .text "x"), ("b", .null), ("a", .int 1)]
    ∃ tree, parse "$a > 0 && !$b" ["a", "b"] = .ok tree ∧
      Environment.AgreeOn ["a", "b"] env env' ∧ tree.evaluate env = tree.evaluate env' := by
  intro env env'
  have hparse : parse "$a > 0 && !$b" ["a", "b"] =
      .ok (.and (.compare .above (.var "a") (.literal (.whole 0))) (.not (.var "b"))) := by
    decide +kernel
  have hagree : Environment.AgreeOn ["a", "b"] env env' := by
    intro n hn
    rcases List.mem_pair.mp hn with rfl | rfl
    · exact .inl ⟨.int 1, rfl, rfl⟩
    · refine .inr ⟨fun v hv ↦ ?_, fun v hv ↦ (Option.some.inj hv).symm⟩
      cases hv
  exact ⟨_, hparse, hagree, (parse_observes_known hparse).2 env env' hagree⟩

/-! ## Identical and equal -/

/-- Whether a value, if it is a floating-point number, is one of the format. -/
def Value.InFormat (v : Value) : Prop := ∀ x, v = .float x → x.IsDouble

def Number.toValue : Number → Value
  | .int i => .int i
  | .float x => .float x

namespace Value

/-- What can be identical: values of the same kind, where all numbers are of one kind. -/
theorem identical_cases (h : identical v w = true) :
    (v = .null ∧ w = .null) ∨ (∃ b, v = .bool b ∧ w = .bool b) ∨
      (∃ t, v = .text t ∧ w = .text t) ∨
      (∃ m n : Number, v = m.toValue ∧ w = n.toValue ∧ m.equals n = true) ∨
      v.isCompound = true ∧ w.isCompound = true := by
  cases v with
  | null => cases w <;> simp_all [identical, same]
  | bool b => cases w <;> simp_all [identical]
  | text t => cases w <;> simp_all [identical, same]
  | list items => cases w <;> simp_all [identical, same, isCompound]
  | record members => cases w <;> simp_all [identical, same, isCompound]
  | int i =>
    cases w with
    | int j => exact .inr (.inr (.inr (.inl ⟨.int i, .int j, rfl, rfl, h⟩)))
    | float y => exact .inr (.inr (.inr (.inl ⟨.int i, .float y, rfl, rfl, h⟩)))
    | _ => simp [identical, same, number?] at h
  | float x =>
    cases w with
    | int j => exact .inr (.inr (.inr (.inl ⟨.float x, .int j, rfl, rfl, h⟩)))
    | float y => exact .inr (.inr (.inr (.inl ⟨.float x, .float y, rfl, rfl, h⟩)))
    | _ => simp [identical, same, number?] at h

theorem ofInt?_of_toNumber {i : Int} {x : Binary64} (h : (Value.int i).toNumber = .ok x) :
    Binary64.ofInt? i = some x := by
  rw [toNumber] at h
  cases hconverted : Binary64.ofInt? i with
  | none =>
    rw [hconverted] at h
    cases h
  | some y =>
    rw [hconverted] at h
    exact congrArg some (Except.ok.inj h)

theorem equals_toNumber {m n : Number} (hm : m.toValue.InFormat) (hn : n.toValue.InFormat)
    (h : m.equals n = true) {x y : Binary64} (hx : m.toValue.toNumber = .ok x)
    (hy : n.toValue.toNumber = .ok y) : x.equals y = true := by
  rw [Binary64.equals_iff]
  cases m with
  | int i =>
    obtain ⟨place, hplace⟩ := Binary64.exists_place_of_ofInt? (ofInt?_of_toNumber hx)
    cases n with
    | int j =>
      obtain rfl : i = j := by simpa [Number.equals] using h
      obtain rfl : x = y := Except.ok.inj (hx.symm.trans hy)
      exact ⟨place, hplace, hplace⟩
    | float z =>
      obtain rfl : z = y := Except.ok.inj hy
      obtain ⟨x', hx', hsame⟩ := Binary64.ofInt?_of_equalsInt (hn z rfl) h
      obtain rfl : x' = x := Option.some.inj (hx'.symm.trans (ofInt?_of_toNumber hx))
      exact ⟨place, hplace, hsame ▸ hplace⟩
  | float z =>
    obtain rfl : z = x := Except.ok.inj hx
    cases n with
    | int j =>
      obtain ⟨place, hplace⟩ := Binary64.exists_place_of_ofInt? (ofInt?_of_toNumber hy)
      obtain ⟨y', hy', hsame⟩ := Binary64.ofInt?_of_equalsInt (hm z rfl) h
      obtain rfl : y' = y := Option.some.inj (hy'.symm.trans (ofInt?_of_toNumber hy))
      exact ⟨place, hsame ▸ hplace, hplace⟩
    | float y' =>
      obtain rfl : y' = y := Except.ok.inj hy
      exact Binary64.equals_iff.mp h

theorem looselyEqual_eq (hv : v ≠ .null) (hw : w ≠ .null)
    (htexts : ∀ t u, v = .text t → w ≠ .text u) :
    looselyEqual v w =
      v.toNumber.bind fun x ↦ w.toNumber.bind fun y ↦ .ok (x.equals y) := by
  unfold looselyEqual
  split
  · exact absurd rfl hv
  · exact absurd rfl hv
  · exact absurd rfl hw
  · rename_i t u
    exact absurd rfl (htexts t u rfl)
  · rfl

/-- What is made up of other values converts to a NaN, and a NaN equals nothing. -/
theorem looselyEqual_of_isCompound (hv : v.isCompound = true) (hw : w.isCompound = true) :
    looselyEqual v w = .ok false := by
  have hcases : ∀ u : Value, u.isCompound = true →
      u ≠ .null ∧ (∀ t, u ≠ .text t) ∧ u.toNumber = .ok .nan := by
    intro u hu
    cases u with
    | list items => exact ⟨by simp, by simp, rfl⟩
    | record members => exact ⟨by simp, by simp, rfl⟩
    | null | bool | int | float | text => cases hu
  obtain ⟨hnull, htext, hnan⟩ := hcases v hv
  obtain ⟨hnull', -, hnan'⟩ := hcases w hw
  rw [looselyEqual_eq hnull hnull' fun t _ ht ↦ absurd ht (htext t), hnan, hnan']
  rfl

/-- Loose equality finds identical values equal, unless they are made up of other values. -/
theorem looselyEqual_of_identical (hv : v.InFormat) (hw : w.InFormat) (h : identical v w = true)
    {b : Bool} (hb : looselyEqual v w = .ok b) : b = !v.isCompound := by
  rcases identical_cases h with ⟨rfl, rfl⟩ | ⟨c, rfl, rfl⟩ | ⟨t, rfl, rfl⟩ |
    ⟨m, n, rfl, rfl, hequal⟩ | ⟨hcompound, hcompound'⟩
  · exact (Except.ok.inj hb).symm
  · rw [looselyEqual_eq (by simp) (by simp) (by simp), toNumber] at hb
    rw [← Except.ok.inj hb]
    exact Binary64.equals_iff.mpr ⟨_, rfl, rfl⟩
  · rw [looselyEqual] at hb
    rw [← Except.ok.inj hb]
    exact beq_self_eq_true t
  · rw [looselyEqual_eq (by cases m <;> simp [Number.toValue])
      (by cases n <;> simp [Number.toValue]) (by cases m <;> simp [Number.toValue])] at hb
    cases hx : m.toValue.toNumber with
    | error e =>
      rw [hx] at hb
      cases hb
    | ok x =>
      cases hy : n.toValue.toNumber with
      | error e =>
        rw [hx, hy] at hb
        cases hb
      | ok y =>
        rw [hx, hy] at hb
        have hcompound : m.toValue.isCompound = false := by cases m <;> rfl
        rw [← Except.ok.inj hb, equals_toNumber hv hw hequal hx hy, hcompound]
        rfl
  · rw [looselyEqual_of_isCompound hcompound hcompound'] at hb
    rw [← Except.ok.inj hb, hcompound]
    rfl

end Value

/-- What identity of the values of two variables comes from: the values are identical, or there is
one variable, and its value is a list or a record. -/
theorem Operand.identical_cases {a b : Text}
    (h : Operand.identical (env.operand a) (env.operand b) = true) :
    Value.identical (env.operand a).value (env.operand b).value = true ∨
      a = b ∧ (env.operand a).value.isCompound = true := by
  rw [Operand.identical, Bool.or_eq_true] at h
  rcases h with hshared | hvalues
  · right
    simp only [Operand.isShared, Environment.operand, Option.isSome_some, Bool.and_true,
      Bool.and_eq_true, beq_iff_eq, Option.some.injEq] at hshared
    exact ⟨hshared.2, hshared.1⟩
  · exact .inl hvalues

theorem evaluate_compare_var {op : Comparison} {a b : Text} {result : Bool} :
    (Tree.compare op (.var a) (.var b)).evaluate env = .ok (.bool result) ↔
      Operand.compare op (env.operand a) (env.operand b) = .ok result := by
  have hevaluate : (Tree.compare op (.var a) (.var b)).evaluate env =
      (Operand.compare op (env.operand a) (env.operand b)).map Value.bool := by
    change Except.map Operand.value ((Operand.compare op (env.operand a) (env.operand b)).bind
      fun found ↦ .ok { value := .bool found }) = _
    cases Operand.compare op (env.operand a) (env.operand b) <;> rfl
  rw [hevaluate]
  cases Operand.compare op (env.operand a) (env.operand b) with
  | error e => exact iff_of_false (fun h ↦ by cases h) (fun h ↦ by cases h)
  | ok found =>
    constructor
    · intro h
      exact congrArg Except.ok (Value.bool.inj (Except.ok.inj h))
    · intro h
      exact congrArg (fun x ↦ Except.ok (Value.bool x)) (Except.ok.inj h)

/-- **What is identical is equal, but for lists and records.** Where `$a === $b` is true and
`$a == $b` has a value, that value is true exactly if the two are not made up of other values. -/
theorem equal_of_identical_iff {env : Environment} {a b : Text}
    (ha : (env.operand a).value.InFormat) (hb : (env.operand b).value.InFormat)
    (hidentical : (Tree.compare .identical (.var a) (.var b)).evaluate env = .ok (.bool true))
    {equal : Bool}
    (hequal : (Tree.compare .equal (.var a) (.var b)).evaluate env = .ok (.bool equal)) :
    equal = true ↔ (env.operand a).value.isCompound = false := by
  have hsame := Except.ok.inj (evaluate_compare_var.mp hidentical)
  have hloose : Value.looselyEqual (env.operand a).value (env.operand b).value = .ok equal :=
    evaluate_compare_var.mp hequal
  rcases Operand.identical_cases hsame with hvalues | ⟨rfl, hcompound⟩
  · rw [Value.looselyEqual_of_identical ha hb hvalues hloose, Bool.not_eq_true']
  · rw [Value.looselyEqual_of_isCompound hcompound hcompound] at hloose
    rw [← Except.ok.inj hloose, hcompound]
    simp

/-- An integer beyond those that all have a number of their own, and its number. -/
theorem integer_equals_its_double :
    let env : Environment :=
      [("a", .int 9007199254740994),
       ("b", .float (.finite false (9007199254740994 * Binary64.one)))]
    (Tree.compare .identical (.var "a") (.var "b")).evaluate env = .ok (.bool true) ∧
      (Tree.compare .equal (.var "a") (.var "b")).evaluate env = .ok (.bool true) ∧
      (env.operand "a").value.isCompound = false := by
  intro env
  have hidentical : (Tree.compare .identical (.var "a") (.var "b")).evaluate env =
      .ok (.bool true) := evaluate_compare_var.mpr (by decide +kernel)
  have hequal : (Tree.compare .equal (.var "a") (.var "b")).evaluate env = .ok (.bool true) :=
    evaluate_compare_var.mpr (by decide +kernel)
  have ha : (env.operand "a").value.InFormat := fun x hx ↦ by cases hx
  have hb : (env.operand "b").value.InFormat := by
    rintro x hx
    obtain rfl := Value.float.inj hx
    exact .finite false ⟨by decide +kernel, by decide +kernel⟩
  exact ⟨hidentical, hequal, (equal_of_identical_iff ha hb hidentical hequal).mp rfl⟩

/-- Two empty lists are identical and not equal, and the same goes for one and the same list. -/
theorem identical_lists_not_equal :
    let env : Environment := [("a", .list []), ("b", .list [])]
    ∃ strict loose, parse "$a === $b" ["a", "b"] = .ok strict ∧
      parse "$a == $b" ["a", "b"] = .ok loose ∧
      strict.evaluate env = .ok (.bool true) ∧ loose.evaluate env = .ok (.bool false) ∧
      (Tree.compare .identical (.var "a") (.var "a")).evaluate env = .ok (.bool true) ∧
      (Tree.compare .equal (.var "a") (.var "a")).evaluate env = .ok (.bool false) := by
  intro env
  have hstrict :
      parse "$a === $b" ["a", "b"] = .ok (.compare .identical (.var "a") (.var "b")) := by
    decide +kernel
  have hloose : parse "$a == $b" ["a", "b"] = .ok (.compare .equal (.var "a") (.var "b")) := by
    decide +kernel
  exact ⟨_, _, hstrict, hloose, evaluate_compare_var.mpr rfl, evaluate_compare_var.mpr rfl,
    evaluate_compare_var.mpr rfl, evaluate_compare_var.mpr rfl⟩

end Condition

end PageCompiler
