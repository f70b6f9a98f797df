/-
  IntLisp.Registry
  ────────────────
  **THE DEFINITIONS IN FORCE.**

  There is one namespace, and the last definition of a name is the one in
  force, also for the names of the core.  Definitions are kept in the order
  of the bytes of their names.
-/
import IntLisp.Definition
import IntLisp.Text.ByteOrder

namespace IntLisp

/-- The definitions in force, in the order of their names. -/
structure Registry where
  definitions : List Definition

namespace Registry

/-- Put `d` where its name belongs, in place of a definition with that name. -/
def place (d : Definition) : List Definition → List Definition
  | [] => [d]
  | e :: es =>
    if d.symbol = e.symbol then d :: es
    else if Text.precedes d.symbol e.symbol then d :: e :: es
    else e :: place d es

/-- The registry after the definition `d`. -/
def register (r : Registry) (d : Definition) : Registry := ⟨place d r.definitions⟩

/-- The definition in force for `symbol`. -/
def resolve (r : Registry) (symbol : String) : Option Definition :=
  r.definitions.find? fun d => d.symbol = symbol

/-- The defined names, in order. -/
def symbols (r : Registry) : List String := r.definitions.map Definition.symbol

/-- No definitions. -/
def empty : Registry := ⟨[]⟩

/-- The definitions that the language begins with. -/
def coreDefinitions : List Definition :=
  [.native "+" ⟨2, -1⟩ .add, .native "print" ⟨1, 1⟩ .print, .form "defun" ⟨3, 3⟩ .define,
    .form "let" ⟨2, 2⟩ .letIn]

/-- The registry that the language begins with. -/
def core : Registry := coreDefinitions.foldl register empty

theorem mem_place {d e : Definition} {ds : List Definition} (h : e ∈ place d ds) :
    e = d ∨ e ∈ ds := by
  induction ds with
  | nil => exact .inl (List.mem_singleton.1 h)
  | cons c cs ih =>
    unfold place at h
    split at h
    · rcases List.mem_cons.1 h with h | h
      · exact .inl h
      · exact .inr (List.mem_cons_of_mem c h)
    · split at h
      · exact List.mem_cons.1 h
      · rcases List.mem_cons.1 h with h | h
        · exact .inr (h ▸ List.mem_cons_self)
        · exact (ih h).imp_right (List.mem_cons_of_mem c)

theorem mem_foldl_register {e : Definition} (ds : List Definition) {r : Registry}
    (h : e ∈ (ds.foldl register r).definitions) : e ∈ ds ∨ e ∈ r.definitions := by
  induction ds generalizing r with
  | nil => exact .inr h
  | cons d ds ih =>
    rcases ih h with hmem | hmem
    · exact .inl (.tail _ hmem)
    · rcases mem_place hmem with rfl | hmem
      · exact .inl (.head _)
      · exact .inr hmem

theorem mem_of_mem_core {d : Definition} (h : d ∈ core.definitions) : d ∈ coreDefinitions :=
  (mem_foldl_register coreDefinitions h).resolve_right List.not_mem_nil

/-- The core has no code from outside. -/
theorem code_not_mem_core {symbol : String} {arity : Arity} :
    (∀ body, .native symbol arity (.code body) ∉ coreDefinitions)
      ∧ ∀ body, .form symbol arity (.code body) ∉ coreDefinitions := by
  simp [coreDefinitions]

/-- And no function that is written in the language. -/
theorem user_not_mem_core {symbol : String} {params : List String} {body : Node} :
    .user symbol params body ∉ coreDefinitions := by
  simp [coreDefinitions]

theorem find?_place (d : Definition) (ds : List Definition) (symbol : String) :
    (place d ds).find? (fun e => e.symbol = symbol)
      = if d.symbol = symbol then some d else ds.find? fun e => e.symbol = symbol := by
  induction ds with
  | nil => by_cases h : d.symbol = symbol <;> simp [place, h]
  | cons c cs ih =>
    unfold place
    split
    · -- the definition that is replaced has the same name
      next hc => by_cases h : d.symbol = symbol <;> simp [← hc, h]
    · next hc =>
      split
      · by_cases h : d.symbol = symbol <;> simp [h]
      · rw [List.find?_cons, List.find?_cons, ih]
        by_cases h : d.symbol = symbol
        · have hne : c.symbol ≠ symbol := fun he => hc (h.trans he.symm)
          simp [h, hne]
        · simp [h]

/-- The last definition of a name is the one in force, and others stay in force. -/
theorem resolve_register (r : Registry) (d : Definition) (symbol : String) :
    (r.register d).resolve symbol = if d.symbol = symbol then some d else r.resolve symbol :=
  find?_place d r.definitions symbol

theorem symbol_of_resolve {r : Registry} {symbol : String} {d : Definition}
    (h : r.resolve symbol = some d) : d.symbol = symbol := by
  simpa using List.find?_some h

theorem mem_of_resolve {r : Registry} {symbol : String} {d : Definition}
    (h : r.resolve symbol = some d) : d ∈ r.definitions :=
  List.mem_of_find?_eq_some h

end Registry

end IntLisp
