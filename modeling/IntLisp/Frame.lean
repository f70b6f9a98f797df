/-
  IntLisp.Frame
  ─────────────
  **FRAMES AND WHAT IS VISIBLE IN THEM.**

  A frame binds names for one active call or one `let` body.  A name is
  looked up from the innermost frame outwards; frames of `let` are looked
  through, the frame of a call is the last one looked at, so a function body
  sees its parameters and the lets it opened, and nothing of its callers.
-/
import IntLisp.Value

namespace IntLisp

/-- What a frame was opened for. -/
inductive Frame.Kind where
  | call
  | scope
deriving DecidableEq

/-- The names bound by one call or `let`, in the order of their first binding. -/
structure Frame where
  kind : Frame.Kind
  name : String
  bindings : List (String × Value)
deriving DecidableEq

namespace Frame

/-- A frame that binds nothing. -/
def empty (kind : Kind) (name : String) : Frame := ⟨kind, name, []⟩

/-- Set the value of `name`: a name bound before keeps its place. -/
def assign (name : String) (v : Value) : List (String × Value) → List (String × Value)
  | [] => [(name, v)]
  | (n, w) :: rest => if n = name then (n, v) :: rest else (n, w) :: assign name v rest

/-- Bind `name` to a value in the frame. -/
def bind (f : Frame) (name : String) (v : Value) : Frame :=
  { f with bindings := assign name v f.bindings }

/-- Bind names to values, one after the other. -/
def bindAll (f : Frame) (pairs : List (String × Value)) : Frame :=
  pairs.foldl (fun f (name, v) => f.bind name v) f

/-- The value of `name` in this frame. -/
def lookup (f : Frame) (name : String) : Option Value := f.bindings.lookup name

/-- The names bound in this frame. -/
def names (f : Frame) : List String := f.bindings.map Prod.fst

/-- The values bound in this frame, in the order of the names. -/
def values (f : Frame) : List Value := f.bindings.map Prod.snd

/-- The value of `name` in the frames visible from the innermost one. -/
def lookupVisible (name : String) : List Frame → Option Value
  | [] => none
  | f :: fs =>
    match f.lookup name with
    | some v => some v
    | none => if f.kind = .call then none else lookupVisible name fs

theorem lookup_cons (n : String) (w : Value) (bs : List (String × Value)) (x : String) :
    ((n, w) :: bs).lookup x = if x = n then some w else bs.lookup x := by
  by_cases hx : x = n
  · simp [hx]
  · have hbeq : (x == n) = false := beq_false_of_ne hx
    rw [List.lookup_cons, hbeq, if_neg hx]

theorem lookup_assign (name : String) (v : Value) (bs : List (String × Value)) (x : String) :
    (assign name v bs).lookup x = if x = name then some v else bs.lookup x := by
  induction bs with
  | nil => exact lookup_cons name v [] x
  | cons b bs ih =>
    obtain ⟨n, w⟩ := b
    unfold assign
    by_cases hn : n = name
    · rw [if_pos hn, lookup_cons, lookup_cons]
      by_cases hx : x = name <;> simp [hn, hx]
    · rw [if_neg hn, lookup_cons, lookup_cons, ih]
      -- a name before the one that is set is found as before
      by_cases hx : x = n <;> simp [hx, hn]

@[simp] theorem lookup_bind (f : Frame) (name : String) (v : Value) (x : String) :
    (f.bind name v).lookup x = if x = name then some v else f.lookup x :=
  lookup_assign name v f.bindings x

end Frame

end IntLisp
