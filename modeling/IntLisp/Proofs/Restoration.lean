/-
  IntLisp.Proofs.Restoration
  ──────────────────────────
  **HOW AN EVALUATION LEAVES THE STACK.**

  The interpreter closes every frame that it opens, however the evaluation
  inside the frame ends.  So a stack can only come to differ by what native
  code does to it.  Code that opens and closes no frames can still bind names
  in those that are active: then the frames stay, and each may have gained
  bindings.  Where no code binds names either, the stack is given back as it
  was.

  Both are the same argument for a relation between a stack and what becomes
  of it, which goes inside a frame and comes out again:

      R s t  →  R (s.push f) (t.push f),      R (s.push f) t  →  R s t.pop
-/
import IntLisp.Native
import IntLisp.Proofs.Coupling
import Mathlib.Data.List.Forall2

namespace IntLisp

/-! ## §1. Frames that gain bindings. -/

/-- The frame `g` is what the frame `f` is once more bindings are made in it. -/
def Frame.GrowsTo (f g : Frame) : Prop := ∃ pairs : List (String × Value), g = f.bindAll pairs

namespace Frame.GrowsTo

theorem refl (f : Frame) : f.GrowsTo f := ⟨[], rfl⟩

theorem bind {f g : Frame} (h : f.GrowsTo g) (name : String) (v : Value) :
    f.GrowsTo (g.bind name v) := by
  obtain ⟨pairs, rfl⟩ := h
  exact ⟨pairs ++ [(name, v)], by rw [bindAll, bindAll, List.foldl_append]; rfl⟩

end Frame.GrowsTo

/-- The same frames are active, in the same order, and each may have gained bindings. -/
def Stack.GrowsTo (s t : Stack) : Prop := List.Forall₂ Frame.GrowsTo s.frames t.frames

/-- A relation between a stack and what becomes of it, which holds inside of a frame as well
and is kept by what native code within the access `a` does to the stack. -/
structure Stack.Survives (R : Stack → Stack → Prop) (a : Access) : Prop where
  push : ∀ {s t}, R s t → ∀ f, R (s.push f) (t.push f)
  pop : ∀ {s t f}, R (s.push f) t → R s t.pop
  bind : a.binds → ∀ {s t}, R s t → ∀ level name v, R s (t.bind level name v)
  opens : ¬ a.opens

namespace Stack

theorem growsTo_refl (s : Stack) : s.GrowsTo s := List.forall₂_same.2 fun f _ => .refl f

theorem survives_growsTo : Survives GrowsTo .binding where
  push h f := .cons (.refl f) h
  pop := by
    intro s t f h
    -- whatever the frame on top has become goes with it
    rcases List.forall₂_cons_left_iff.1 h with ⟨g, gs, -, hgs, ht⟩
    show List.Forall₂ _ _ t.frames.tail
    rwa [ht]
  bind := by
    intro _ s t h level name v
    show List.Forall₂ _ s.frames (t.frames.modify level (·.bind name v))
    unfold GrowsTo at h
    -- the frame is found by going down both stacks at once
    generalize s.frames = fs, t.frames = gs at h ⊢
    induction h generalizing level with
    | nil => rw [List.modify_nil]; exact .nil
    | cons hfg hrest ih =>
      cases level with
      | zero => exact .cons (hfg.bind name v) hrest
      | succ level => exact .cons hfg (ih level)
  opens := id

theorem survives_eq : Survives Eq .looking where
  push h f := congrArg (·.push f) h
  pop h := h ▸ (pop_push _ _).symm
  bind := False.elim
  opens := id

end Stack

/-! ## §2. Stacks that survive. -/

/-- The coupling of an evaluation with itself, which began on the stack `s`. -/
def Stack.surviving (R : Stack → Stack → Prop) (a : Access) (s : Stack) : Coupling where
  rel c₁ c₂ := c₁ = c₂ ∧ c₁.registry.Within a ∧ R s c₁.stack
  excuses _ := False
  halts _ := True
  misuse := trivial
  lookup_eq hc _ := by rw [hc.1]
  resolve_eq hc _ := by rw [hc.1]
  depth_eq hc := by rw [hc.1]
  output_eq hc := by rw [hc.1]
  trace := by
    intro c c₂ hc event
    obtain ⟨rfl, hcode, hs⟩ := hc
    exact ⟨rfl, by rwa [c.registry_trace], by rwa [c.stack_trace]⟩
  write := by
    intro c c₂ hc text
    obtain ⟨rfl, hcode, hs⟩ := hc
    exact ⟨rfl, hcode, hs⟩
  define := by
    intro c c₂ hc symbol params body
    obtain ⟨rfl, hcode, hs⟩ := hc
    refine ⟨rfl, ?_, by rwa [c.stack_register]⟩
    rw [c.registry_register]
    exact hcode.register (Definition.within_user _ _ _)
  excuses_named := @Coupling.never_named

/-- **A step that keeps the coupling keeps the relation** between the stack before it and the
stack after it. -/
theorem Stack.run_surviving {R : Stack → Stack → Prop} {a : Access} {α : Type} {act : Eval α}
    (hact : ∀ s, (surviving R a s).Matches act act) {ctx : Context}
    (hcode : ctx.registry.Within a) (hrefl : R ctx.stack ctx.stack) :
    R ctx.stack (act.run ctx).context.stack := by
  -- the coupling is one of the step with itself, so there is only one outcome
  have hagree := hact ctx.stack ctx ctx ⟨rfl, hcode, hrefl⟩
  generalize act.run ctx = o at hagree
  cases hagree with
  | done _ hc | failed _ hc | halted _ _ hc => exact hc.2.2
  | excused _ _ _ he => exact he.elim

namespace Stack.Survives

variable {R : Stack → Stack → Prop} {a : Access} (h : Stack.Survives R a)

include h

theorem serves (s : Stack) : (Stack.surviving R a s).Serves a where
  excuses _ he := he
  halts _ := trivial
  within hc := hc.2.1
  register := by
    intro c c₂ hc d hd
    obtain ⟨rfl, hcode, hs⟩ := hc
    refine ⟨rfl, ?_, by rwa [c.stack_register]⟩
    rw [c.registry_register]
    exact hcode.register hd
  record := by
    intro c c₂ hc e _
    obtain ⟨rfl, hcode, hs⟩ := hc
    exact ⟨rfl, hcode, hs⟩
  frame_eq := fun _ _ _ hc _ => by rw [hc.1]
  bind := by
    intro hbinds c c₂ hc level name v
    obtain ⟨rfl, hcode, hs⟩ := hc
    exact ⟨rfl, hcode, h.bind hbinds hs level name v⟩
  isFull_eq := fun hopens => absurd hopens h.opens
  opened := fun hopens => absurd hopens h.opens
  top_eq := fun hopens => absurd hopens h.opens
  pop := fun hopens => absurd hopens h.opens

/-- The couplings of all stacks that an evaluation may begin on. -/
def couplings : Couplings a Stack where
  coupling := Stack.surviving R a
  serves := h.serves
  room_eq _ _ _ hc := by rw [hc.1]
  opens s f :=
    ⟨s.push f,
      { overflow := by
          intro c c₂ hc hfull
          obtain ⟨rfl, -⟩ := hc
          exact .inl hfull
        opened := by
          intro c c₂ hc hfull
          obtain ⟨rfl, hcode, hs⟩ := hc
          refine ⟨hfull, rfl, by rwa [c.registry_opened], ?_⟩
          rw [c.stack_opened]
          exact h.push hs f
        pop := by
          intro c c₂ hc
          obtain ⟨rfl, hcode, hs⟩ := hc
          refine ⟨rfl, by rwa [c.registry_pop], ?_⟩
          rw [c.stack_pop]
          exact h.pop hs
        excuses := id
        halts := id }⟩

theorem drives_withRoom (calls room : Nat) (s : Stack) :
    (Stack.surviving R a s).Drives (.withRoom (Node.evalNested calls) room)
      (.withRoom (Node.evalNested calls) room) :=
  h.couplings.drives_withRoom (h.couplings.matches_evalNested calls) room s

end Stack.Survives

/-- A step that keeps the couplings gives the stack back. -/
theorem stack_run_of_matches {α : Type} {act : Eval α}
    (hact : ∀ s, (Stack.surviving Eq .looking s).Matches act act) {ctx : Context}
    (hcode : ctx.registry.Within .looking) : (act.run ctx).context.stack = ctx.stack :=
  (Stack.run_surviving hact hcode rfl).symm

/-! ## §3. Evaluations. -/

end IntLisp
