/-
  IntLisp.Proofs.FirstFailure
  ───────────────────────────
  **THE FIRST OF A ROW THAT FAILS.**

  Operands, the nodes of a list and the bindings of a `let` are evaluated
  from left to right, up to the first that fails.  So a row fails if one of
  its members does once those before it are done, there is one such member
  at most, and the row fails as that member does.
-/
import IntLisp.Proofs.Calls

namespace IntLisp

open Eval

variable {engine : Engine} {ctx ctx' : Context} {e : Error}

/-! ## §1. Steps that fail. -/

theorem run_map_eq_failed {α β : Type} {f : α → β} {act : Eval α} :
    (f <$> act).run ctx = .failed e ctx' ↔ act.run ctx = .failed e ctx' := by
  rw [map_eq_pure_bind, run_bind_eq_failed]
  simp

theorem Eval.nameNode_congr (n : Node) (e : Error) {c₁ c₂ : Context} (h : c₁.stack = c₂.stack) :
    nameNode n e c₁ = nameNode n e c₂ := by
  unfold nameNode Context.depth
  rw [h]

theorem Eval.run_within_eq_failed {n : Node} {act : Eval Value} :
    (act.within n).run ctx = .failed e ctx'
      ↔ ∃ e', act.run ctx = .failed e' ctx' ∧ e = nameNode n e' ctx' := by
  unfold within recover
  dsimp only
  cases act.run ctx with
  | done a c => simp
  | halted why c => simp
  | failed e' c =>
    show Outcome.failed (nameNode n e' c) c = _ ↔ _
    constructor
    · intro h
      cases h
      exact ⟨e', rfl, rfl⟩
    · rintro ⟨e'', h, rfl⟩
      cases h
      rfl

theorem Eval.run_within_congr {α : Type} {n : Node} {act₁ act₂ : Eval α}
    (h : act₁.run ctx = act₂.run ctx) : (act₁.within n).run ctx = (act₂.within n).run ctx := by
  unfold within recover
  dsimp only
  rw [h]

theorem Eval.run_within_of_done {α : Type} {n : Node} {act : Eval α} {a : α}
    (h : act.run ctx = .done a ctx') : (act.within n).run ctx = .done a ctx' := by
  unfold within recover
  dsimp only
  rw [h]

theorem Eval.isTraced_nameNode (n : Node) (e : Error) (ctx : Context) :
    (nameNode n e ctx).isTraced = true := by
  unfold nameNode
  split
  · assumption
  · rfl

/-- An error that names an expression is not named again. -/
theorem Eval.nameNode_of_isTraced {e : Error} (h : e.isTraced = true) (n : Node) (ctx : Context) :
    nameNode n e ctx = e := by
  rw [nameNode, if_pos h]

theorem Eval.within_within {α : Type} (n : Node) (act : Eval α) :
    (act.within n).within n = act.within n := by
  refine ext fun ctx => ?_
  unfold within recover
  dsimp only
  cases act.run ctx with
  | done a c => rfl
  | halted why c => rfl
  | failed e c =>
    show Outcome.failed (nameNode n (nameNode n e c) c) c = Outcome.failed (nameNode n e c) c
    rw [nameNode_of_isTraced (isTraced_nameNode n e c)]

/-! ## §2. Nodes. -/

/-- The value of the last node is the last of all values. -/
theorem Node.evalLast_eq (before : Value) (ns : List Node) :
    Node.evalLast engine before ns = (·.getLastD before) <$> Node.evalAll engine ns := by
  induction ns generalizing before with
  | nil => rfl
  | cons n ns ih => simp [evalLast, evalAll, ih, List.getLast?_cons]

theorem exists_failed_of_evalAll {ns : List Node}
    (h : (Node.evalAll engine ns).run ctx = .failed e ctx') :
    ∃ before n after vs ctx₁, ns = before ++ n :: after ∧ Evaluates engine before ctx vs ctx₁
      ∧ (n.evalWith engine).run ctx₁ = .failed e ctx' := by
  induction ns generalizing ctx with
  | nil => cases h
  | cons n ns ih =>
    rw [Node.evalAll, run_bind_eq_failed] at h
    rcases h with h | ⟨v, ctx₁, hn, h⟩
    · exact ⟨[], n, ns, [], ctx, rfl, .nil ctx, h⟩
    · rcases run_bind_eq_failed.1 h with h | ⟨vs, ctx₂, -, h⟩
      · obtain ⟨before, m, after, vs, ctx₂, rfl, hbefore, hm⟩ := ih h
        exact ⟨n :: before, m, after, v :: vs, ctx₂, rfl, .cons hn hbefore, hm⟩
      · cases h

/-- Nodes with values have none among them that fails. -/
theorem Evaluates.not_failed {before after : List Node} {n : Node} {vs ws : List Value}
    {ctx₁ ctx₂ : Context} (h : Evaluates engine (before ++ n :: after) ctx ws ctx')
    (hbefore : Evaluates engine before ctx vs ctx₁) :
    (n.evalWith engine).run ctx₁ ≠ .failed e ctx₂ := by
  intro hn
  have hfailed : (Node.evalAll engine (before ++ n :: after)).run ctx = .failed e ctx₂ :=
    run_evalAll_failed hbefore hn
  rw [evaluates_iff.1 h] at hfailed
  cases hfailed

theorem Evaluates.unique {ns : List Node} {vs ws : List Value} {ctx₁ ctx₂ : Context}
    (h₁ : Evaluates engine ns ctx vs ctx₁) (h₂ : Evaluates engine ns ctx ws ctx₂) :
    vs = ws ∧ ctx₁ = ctx₂ := by
  have h := evaluates_iff.1 h₁
  rw [evaluates_iff.1 h₂] at h
  cases h
  exact ⟨rfl, rfl⟩

/-- Two places in a row of nodes are the same, or one is before the other. -/
theorem split_cases {α : Type} {b₁ a₁ b₂ a₂ : List α} {x₁ x₂ : α}
    (h : b₁ ++ x₁ :: a₁ = b₂ ++ x₂ :: a₂) :
    (b₁ = b₂ ∧ x₁ = x₂ ∧ a₁ = a₂) ∨ (∃ c, b₂ = b₁ ++ x₁ :: c) ∨ ∃ c, b₁ = b₂ ++ x₂ :: c := by
  rcases List.append_eq_append_iff.1 h with ⟨c, rfl, hc⟩ | ⟨c, rfl, hc⟩
  · cases c with
    | nil =>
      cases hc
      exact .inl ⟨(List.append_nil b₁).symm, rfl, rfl⟩
    | cons y c =>
      cases hc
      exact .inr (.inl ⟨c, rfl⟩)
  · cases c with
    | nil =>
      cases hc
      exact .inl ⟨List.append_nil b₂, rfl, rfl⟩
    | cons y c =>
      cases hc
      exact .inr (.inr ⟨c, rfl⟩)

/-- **Of nodes in a row one fails at most.** -/
theorem Evaluates.failed_unique {b₁ a₁ b₂ a₂ : List Node} {n₁ n₂ : Node} {vs₁ vs₂ : List Value}
    {ctx₁ ctx₂ c₁ c₂ : Context} {e₁ e₂ : Error} (hsplit : b₁ ++ n₁ :: a₁ = b₂ ++ n₂ :: a₂)
    (h₁ : Evaluates engine b₁ ctx vs₁ ctx₁) (hn₁ : (n₁.evalWith engine).run ctx₁ = .failed e₁ c₁)
    (h₂ : Evaluates engine b₂ ctx vs₂ ctx₂) (hn₂ : (n₂.evalWith engine).run ctx₂ = .failed e₂ c₂) :
    n₁ = n₂ ∧ ctx₁ = ctx₂ := by
  rcases split_cases hsplit with ⟨rfl, rfl, -⟩ | ⟨c, rfl⟩ | ⟨c, rfl⟩
  · exact ⟨rfl, (h₁.unique h₂).2⟩
  · exact absurd hn₁ (h₂.not_failed h₁)
  · exact absurd hn₂ (h₁.not_failed h₂)

/-! ## §3. Bindings. -/

variable {form : String} {frame : Frame}

theorem Node.evalBindings_append (before rest : List Node) :
    Node.evalBindings engine form frame (before ++ rest)
      = Node.evalBindings engine form frame before >>= fun frame' =>
          Node.evalBindings engine form frame' rest := by
  induction before generalizing frame with
  | nil => simp [evalBindings]
  | cons n before ih => simp [evalBindings, ih]

theorem exists_failed_of_evalBindings {ns : List Node}
    (h : (Node.evalBindings engine form frame ns).run ctx = .failed e ctx') :
    ∃ before n after frame' ctx₁, ns = before ++ n :: after
      ∧ (Node.evalBindings engine form frame before).run ctx = .done frame' ctx₁
      ∧ (Node.evalBinding engine form frame' n).run ctx₁ = .failed e ctx' := by
  induction ns generalizing frame ctx with
  | nil => cases h
  | cons n ns ih =>
    rw [Node.evalBindings, run_bind_eq_failed] at h
    rcases h with h | ⟨frame', ctx₁, hn, h⟩
    · exact ⟨[], n, ns, frame, ctx, rfl, rfl, h⟩
    · obtain ⟨before, m, after, frame'', ctx₂, rfl, hbefore, hm⟩ := ih h
      refine ⟨n :: before, m, after, frame'', ctx₂, rfl, ?_, hm⟩
      rw [Node.evalBindings, run_bind_eq_done]
      exact ⟨frame', ctx₁, hn, hbefore⟩

theorem run_evalBindings_failed {before after : List Node} {n : Node} {frame' : Frame}
    {ctx₁ : Context}
    (hbefore : (Node.evalBindings engine form frame before).run ctx = .done frame' ctx₁)
    (hn : (Node.evalBinding engine form frame' n).run ctx₁ = .failed e ctx') :
    (Node.evalBindings engine form frame (before ++ n :: after)).run ctx = .failed e ctx' := by
  rw [Node.evalBindings_append, run_bind, hbefore]
  dsimp only
  rw [Node.evalBindings, run_bind_eq_failed]
  exact .inl hn

/-- Bindings that are made have none among them that fails. -/
theorem not_failed_of_evalBindings {before after : List Node} {n : Node} {frame₁ frame₂ : Frame}
    {ctx₁ ctx₂ : Context}
    (h : (Node.evalBindings engine form frame (before ++ n :: after)).run ctx = .done frame₂ ctx₂)
    (hbefore : (Node.evalBindings engine form frame before).run ctx = .done frame₁ ctx₁) :
    (Node.evalBinding engine form frame₁ n).run ctx₁ ≠ .failed e ctx' := by
  intro hn
  rw [run_evalBindings_failed hbefore hn] at h
  cases h

/-- **Of bindings in a row one fails at most.** -/
theorem failed_evalBinding_unique {b₁ a₁ b₂ a₂ : List Node} {n₁ n₂ : Node} {frame₁ frame₂ : Frame}
    {ctx₁ ctx₂ c₁ c₂ : Context} {e₁ e₂ : Error} (hsplit : b₁ ++ n₁ :: a₁ = b₂ ++ n₂ :: a₂)
    (h₁ : (Node.evalBindings engine form frame b₁).run ctx = .done frame₁ ctx₁)
    (hn₁ : (Node.evalBinding engine form frame₁ n₁).run ctx₁ = .failed e₁ c₁)
    (h₂ : (Node.evalBindings engine form frame b₂).run ctx = .done frame₂ ctx₂)
    (hn₂ : (Node.evalBinding engine form frame₂ n₂).run ctx₂ = .failed e₂ c₂) :
    n₁ = n₂ ∧ ctx₁ = ctx₂ := by
  rcases split_cases hsplit with ⟨rfl, rfl, -⟩ | ⟨c, rfl⟩ | ⟨c, rfl⟩
  · rw [h₁] at h₂
    cases h₂
    exact ⟨rfl, rfl⟩
  · exact absurd hn₁ (not_failed_of_evalBindings h₂ h₁)
  · exact absurd hn₂ (not_failed_of_evalBindings h₁ h₂)

theorem evalBinding_pair {token : Option Token} {key value : Node} {x : String}
    (hkey : key.symbol? = some x) (hfresh : frame.lookup x = none) :
    Node.evalBinding engine form frame (.expression token [key, value])
      = value.evalWith engine >>= fun v => pure (frame.bind x v) := by
  rw [Node.evalBinding, hkey]
  simp [hfresh]

theorem failed_pair {token : Option Token} {key value : Node} {x : String}
    (hkey : key.symbol? = some x) (hfresh : frame.lookup x = none)
    (hvalue : (value.evalWith engine).run ctx = .failed e ctx') :
    (Node.evalBinding engine form frame (.expression token [key, value])).run ctx
      = .failed e ctx' := by
  rw [evalBinding_pair hkey hfresh, run_bind_eq_failed]
  exact .inl hvalue

/-- A binding fails for its value, or for its shape. -/
theorem failed_evalBinding {n : Node}
    (h : (Node.evalBinding engine form frame n).run ctx = .failed e ctx') :
    (∃ token key value x, n = .expression token [key, value] ∧ key.symbol? = some x
        ∧ frame.lookup x = none ∧ (value.evalWith engine).run ctx = .failed e ctx')
      ∨ ∃ n' note, e = Node.malformed n' note := by
  match n with
  | .expression token [key, value] =>
    cases hkey : key.symbol? with
    | none =>
      rw [Node.evalBinding, hkey] at h
      cases h
      exact .inr ⟨_, _, rfl⟩
    | some x =>
      cases hfresh : frame.lookup x with
      | some v =>
        rw [Node.evalBinding, hkey] at h
        simp only [hfresh, Option.isSome_some, if_true, run_fail] at h
        cases h
        exact .inr ⟨_, _, rfl⟩
      | none =>
        rw [evalBinding_pair hkey hfresh, run_bind_eq_failed] at h
        rcases h with h | ⟨v, ctx₁, -, h⟩
        · exact .inl ⟨token, key, value, x, rfl, hkey, hfresh, h⟩
        · cases h
  | .expression _ [] | .expression _ [_] | .expression _ (_ :: _ :: _ :: _)
  | .int _ _ | .symbol _ _ | .list _ _ | .foreign _ _ _ =>
    cases h
    exact .inr ⟨_, _, rfl⟩

end IntLisp
