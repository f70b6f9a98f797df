/-
  IntLisp.Proofs.Sums
  ───────────────────
  **SUMS.**

  Values are added up from left to right, and the first argument that is nil
  is refused before anything is added for it.  So a sum of integers is their
  sum, integers in front of nil are of no use, and only what is no value of
  the language can leave a sum without an answer.
-/
import IntLisp.Eval.Native

namespace IntLisp

namespace Value

variable {symbol : String} {vs : List Value}

/-! ## §1. How a sum ends. -/

theorem error_of_sumFrom {index : Nat} {total : Value} {e : Error}
    (h : sumFrom symbol index total vs = .error e) : ∃ i, e = .nilArgument symbol i := by
  fun_induction sumFrom symbol index total vs with
  | case1 => cases h
  | case2 index =>
    cases h
    exact ⟨index, rfl⟩
  | case3 _ _ _ _ _ _ _ ih => exact ih h
  | case4 => cases h

/-- A sum fails for an argument that is nil, and for nothing else. -/
theorem error_of_sum {e : Error} (h : sum symbol vs = .error e) :
    ∃ i, e = .nilArgument symbol i := by
  match vs with
  | [] | .absent :: _ => cases h
  | .nil :: _ =>
    cases h
    exact ⟨1, rfl⟩
  | .int _ :: _ | .number _ :: _ => exact error_of_sumFrom h

theorem eq_or_int_of_sumFrom {index : Nat} {total v : Value}
    (h : sumFrom symbol index total vs = .ok (some v)) : v = total ∨ ∃ z, v = .int z := by
  fun_induction sumFrom symbol index total vs with
  | case1 =>
    cases h
    exact .inl rfl
  | case2 => cases h
  | case3 index total w vs _ sum hadd ih =>
    rcases ih h with rfl | hz
    · -- what was added is an integer
      match total, w, hadd with
      | .int _, .int _, hadd =>
        cases hadd
        exact .inr ⟨_, rfl⟩
    · exact .inr hz
  | case4 => cases h

/-- A sum is an integer, or the first argument as it is. -/
theorem mem_or_int_of_sum {v : Value} (h : sum symbol vs = .ok (some v)) :
    v ∈ vs ∨ ∃ z, v = .int z := by
  match vs with
  | [] | .absent :: _ | .nil :: _ => cases h
  | .int _ :: _ | .number _ :: _ =>
    refine (eq_or_int_of_sumFrom h).imp_left ?_
    rintro rfl
    exact .head _

/-! ## §2. Sums of integers. -/

/-- Integers are added up to the first argument that is none. -/
theorem sumFrom_ints (symbol : String) (index : Nat) (total : Int) (zs : List Int)
    (vs : List Value) :
    sumFrom symbol index (.int total) (zs.map .int ++ vs)
      = sumFrom symbol (index + zs.length) (.int (zs.foldl (· + ·) total)) vs := by
  induction zs generalizing index total with
  | nil => rfl
  | cons z zs ih =>
    rw [List.map_cons, List.cons_append, List.length_cons, List.foldl_cons, Nat.add_comm zs.length,
      ← Nat.add_assoc, ← ih]
    rfl

/-- **The sum of integers is their sum.** -/
theorem sum_ints (symbol : String) {zs : List Int} (hzs : zs ≠ []) :
    sum symbol (zs.map .int) = .ok (some (.int (zs.foldl (· + ·) 0))) := by
  obtain ⟨z, zs, rfl⟩ := List.exists_cons_of_ne_nil hzs
  have hrest := sumFrom_ints symbol 2 z zs []
  rw [List.append_nil] at hrest
  rw [List.map_cons, List.foldl_cons, Int.zero_add]
  exact hrest

/-- **Nil is refused**, whatever stands behind it. -/
theorem sum_ints_nil (symbol : String) (zs : List Int) (rest : List Value) :
    sum symbol (zs.map .int ++ .nil :: rest) = .error (.nilArgument symbol (zs.length + 1)) := by
  cases zs with
  | nil => rfl
  | cons z zs =>
    have hrest := sumFrom_ints symbol 2 z zs (.nil :: rest)
    rw [List.map_cons, List.cons_append, List.length_cons, Nat.add_comm zs.length 1, Nat.add_assoc,
      Nat.add_comm zs.length 1, ← Nat.add_assoc]
    exact hrest

/-- Values of the language are integers up to the first that is nil, if there is one. -/
theorem ints_or_nil : ∀ vs : List Value, (∀ v ∈ vs, v.isProper = true) →
    (∃ zs : List Int, vs = zs.map .int) ∨ ∃ (zs : List Int) (rest : List Value),
      vs = zs.map .int ++ .nil :: rest
  | [], _ => .inl ⟨[], rfl⟩
  | .nil :: vs, _ => .inr ⟨[], vs, rfl⟩
  | .int z :: vs, h => by
    rcases ints_or_nil vs fun v hv => h v (.tail _ hv) with ⟨zs, rfl⟩ | ⟨zs, rest, rfl⟩
    · exact .inl ⟨z :: zs, rfl⟩
    · exact .inr ⟨z :: zs, rest, rfl⟩
  | .absent :: _, h | .number _ :: _, h => by cases h _ (.head _)

/-- **Values of the language always have a sum, or are refused.** -/
theorem sum_ne_none (hne : vs ≠ []) (h : ∀ v ∈ vs, v.isProper = true) :
    sum symbol vs ≠ .ok none := by
  rcases ints_or_nil vs h with ⟨zs, rfl⟩ | ⟨zs, rest, rfl⟩
  · rw [sum_ints symbol fun hzs => hne (by rw [hzs]; rfl)]
    simp
  · rw [sum_ints_nil]
    simp

end Value

/-! ## §3. The functions of the core. -/

namespace Native

variable {motive : Eval Value → Prop} (evaluate : Node → Eval Value) (symbol : String)
  (args : List Value)

/-- Adding refuses an argument, gives a value, or has nothing to give. -/
theorem apply_add_cases (hfail : ∀ i, motive (Eval.fail (.nilArgument symbol i)))
    (hpure : ∀ v, motive (pure v)) (hhalt : motive (Eval.halt .misuse)) :
    motive (add.apply evaluate symbol args) := by
  rw [apply]
  cases hsum : Value.sum symbol args with
  | error e =>
    obtain ⟨i, rfl⟩ := Value.error_of_sum hsum
    exact hfail i
  | ok sum =>
    cases sum with
    | some v => exact hpure v
    | none => exact hhalt

/-- Printing writes a value and gives it, or has nothing to write. -/
theorem apply_print_cases
    (hprint : ∀ v, motive (Eval.write (v.text ++ "\n") >>= fun _ => pure v))
    (hhalt : motive (Eval.halt .misuse)) : motive (print.apply evaluate symbol args) :=
  match args with
  | [] | .absent :: _ => hhalt
  | .nil :: _ => hprint .nil
  | .int z :: _ => hprint (.int z)
  | .number written :: _ => hprint (.number written)

/-- Nothing is evaluated by printing. -/
theorem apply_print_eq (evaluate evaluate' : Node → Eval Value) (symbol : String)
    (args : List Value) :
    print.apply evaluate symbol args = print.apply evaluate' symbol args :=
  match args with
  | [] | .absent :: _ | .nil :: _ | .int _ :: _ | .number _ :: _ => rfl

end Native

end IntLisp
