/-
  IntLisp.Proofs.Access
  ─────────────────────
  **WHAT NATIVE CODE DOES WITH FRAMES.**

  Native code from outside may look at the active frames, bind names in them,
  and open and close frames itself.  An `Access` says which of these are
  granted, and `Within` that code does nothing else with frames, whatever it
  is answered, and puts only definitions in force of which the same holds.
  The functions and forms of the core, and the functions of the language, are
  within every access: the frames that they open are the interpreter's.
-/
import IntLisp.Native
import IntLisp.Registry

namespace IntLisp

/-- What is granted to native code. -/
structure Access where
  /-- Look at an active frame. -/
  looks : Prop
  /-- Bind a name in an active frame. -/
  binds : Prop
  /-- Open a frame, and close one. -/
  opens : Prop

namespace Access

/-- Nothing is granted. -/
def none : Access := ⟨False, False, False⟩

/-- Frames may be looked at, and nothing else. -/
def looking : Access := ⟨True, False, False⟩

/-- Frames may be looked at, and names bound in them. -/
def binding : Access := ⟨True, True, False⟩

/-- Everything is granted. -/
def any : Access := ⟨True, True, True⟩

end Access

/-! ## §1. Code within an access. -/

mutual
/-- Native code from outside does with frames what is granted, and nothing else. -/
def Code.Within (a : Access) : Code → Prop
  | .done _ => True
  | .fail _ => True
  | .evaluate _ next => ∀ r, (next r).Within a
  | .depth next => ∀ d, (next d).Within a
  | .lookup _ next => ∀ v, (next v).Within a
  | .frame _ next => a.looks ∧ ∀ f, (next f).Within a
  | .bind _ _ _ next => a.binds ∧ next.Within a
  | .push _ next => a.opens ∧ ∀ r, (next r).Within a
  | .pop next => a.opens ∧ ∀ f, (next f).Within a
  | .write _ next =>
    (next (.ok ())).Within a ∧ ∀ reason, (next (.error (.external reason))).Within a
  | .register d next => d.Within a ∧ next.Within a
/-- Native functions that do with frames what is granted, under the name that they are known
as. -/
def Native.Within (a : Access) (symbol : String) : Native → Prop
  | .add | .print => True
  | .code body => ∀ args, (body symbol args).Within a
/-- Forms that do with frames what is granted. -/
def Form.Within (a : Access) : Form → Prop
  | .define | .letIn => True
  | .code body => ∀ name operands, (body name operands).Within a
/-- Definitions whose native code does with frames what is granted. -/
def Definition.Within (a : Access) : Definition → Prop
  | .native symbol _ function => function.Within a symbol
  | .form _ _ form => form.Within a
  | .user _ _ _ => True
  | .foreign _ _ => True
end

section

variable {a : Access}

theorem Definition.within_user (symbol : String) (params : List String) (body : Node) :
    (Definition.user symbol params body).Within a := by
  rw [Definition.Within]
  trivial

mutual
/-- Where everything is granted, all code is within it. -/
theorem Code.within_any : ∀ c : Code, c.Within .any
  | .done _ | .fail _ => by rw [Code.Within]; trivial
  | .evaluate _ next => by rw [Code.Within]; exact fun r => (next r).within_any
  | .depth next => by rw [Code.Within]; exact fun d => (next d).within_any
  | .lookup _ next => by rw [Code.Within]; exact fun v => (next v).within_any
  | .frame _ next => by rw [Code.Within]; exact ⟨trivial, fun f => (next f).within_any⟩
  | .bind _ _ _ next => by rw [Code.Within]; exact ⟨trivial, next.within_any⟩
  | .push _ next => by rw [Code.Within]; exact ⟨trivial, fun r => (next r).within_any⟩
  | .pop next => by rw [Code.Within]; exact ⟨trivial, fun f => (next f).within_any⟩
  | .write _ next => by
    rw [Code.Within]
    exact ⟨(next _).within_any, fun reason => (next (.error (.external reason))).within_any⟩
  | .register d next => by rw [Code.Within]; exact ⟨d.within_any, next.within_any⟩
theorem Native.within_any (symbol : String) : ∀ f : Native, f.Within .any symbol
  | .add | .print => by rw [Native.Within]; trivial
  | .code body => by rw [Native.Within]; exact fun args => (body symbol args).within_any
theorem Form.within_any : ∀ f : Form, f.Within .any
  | .define | .letIn => by rw [Form.Within]; trivial
  | .code body => by rw [Form.Within]; exact fun name operands => (body name operands).within_any
theorem Definition.within_any : ∀ d : Definition, d.Within .any
  | .native _ _ function => by rw [Definition.Within]; exact function.within_any _
  | .form _ _ form => by rw [Definition.Within]; exact form.within_any
  | .user _ _ _ | .foreign _ _ => by rw [Definition.Within]; trivial
end

/-! ## §2. Registries within an access. -/

/-- The native code of all definitions in force does with frames what is granted. -/
def Registry.Within (a : Access) (r : Registry) : Prop := ∀ d ∈ r.definitions, d.Within a

theorem Registry.within_any (r : Registry) : r.Within .any := fun d _ => d.within_any

theorem Registry.Within.register {r : Registry} (h : r.Within a) {d : Definition}
    (hd : d.Within a) : (r.register d).Within a := by
  intro e he
  rcases mem_place he with rfl | he
  · exact hd
  · exact h e he

theorem Registry.Within.resolve {r : Registry} (h : r.Within a) {name : String} {d : Definition}
    (hd : r.resolve name = some d) : d.Within a :=
  h d (mem_of_resolve hd)

/-- The functions and forms of the core do nothing with frames that is to be granted. -/
theorem Definition.within_of_mem_core {d : Definition} (h : d ∈ Registry.coreDefinitions) :
    d.Within a := by
  simp only [Registry.coreDefinitions, List.mem_cons, List.not_mem_nil, or_false] at h
  rcases h with rfl | rfl | rfl | rfl <;>
    simp only [Definition.Within, Native.Within, Form.Within]

theorem Registry.within_core : Registry.core.Within a :=
  fun _ hd => Definition.within_of_mem_core (mem_of_mem_core hd)

/-! ## §3. The native code of the library. -/

end

end IntLisp
