/-
  IntLisp.Stack
  ─────────────
  **THE ACTIVE FRAMES.**

  Frames are opened and closed at one end.  How many there are is asked for
  at every call, so their number is kept beside them; that it is their
  number is part of the type.
-/
import IntLisp.Frame

namespace IntLisp

/-- The active frames, the innermost first, and their number. -/
structure Stack where
  frames : List Frame
  depth : Nat
  depth_eq : depth = frames.length

namespace Stack

/-- Stacks of the same frames are the same. -/
@[ext] theorem ext {s t : Stack} (h : s.frames = t.frames) : s = t := by
  obtain ⟨fs, m, hm⟩ := s
  obtain ⟨gs, n, hn⟩ := t
  cases h
  cases hm
  cases hn
  rfl

instance : DecidableEq Stack := fun s t =>
  if h : s.frames = t.frames then isTrue (ext h)
  else isFalse fun e => h (congrArg frames e)

/-- No frame is active. -/
def empty : Stack := ⟨[], 0, rfl⟩

/-- Open a frame. -/
def push (s : Stack) (f : Frame) : Stack :=
  ⟨f :: s.frames, s.depth + 1, by rw [s.depth_eq, List.length_cons]⟩

/-- The innermost frame. -/
def top? (s : Stack) : Option Frame := s.frames.head?

/-- Close the innermost frame, if there is one. -/
def pop (s : Stack) : Stack :=
  ⟨s.frames.tail, s.depth - 1, by rw [s.depth_eq, List.length_tail]⟩

/-- The frame that `level` others are inside of. -/
def frameAt? (s : Stack) (level : Nat) : Option Frame := s.frames[level]?

/-- Bind a name in the frame that `level` others are inside of, if there is one. -/
def bind (s : Stack) (level : Nat) (name : String) (v : Value) : Stack :=
  ⟨s.frames.modify level (·.bind name v), s.depth, by rw [s.depth_eq, List.length_modify]⟩

/-- The value of a visible name. -/
def lookup (s : Stack) (name : String) : Option Value := Frame.lookupVisible name s.frames

@[simp] theorem frames_empty : empty.frames = [] := rfl

@[simp] theorem frames_push (s : Stack) (f : Frame) : (s.push f).frames = f :: s.frames := rfl

@[simp] theorem frames_pop (s : Stack) : s.pop.frames = s.frames.tail := rfl

@[simp] theorem frames_bind (s : Stack) (level : Nat) (name : String) (v : Value) :
    (s.bind level name v).frames = s.frames.modify level (·.bind name v) := rfl

@[simp] theorem depth_bind (s : Stack) (level : Nat) (name : String) (v : Value) :
    (s.bind level name v).depth = s.depth := rfl

@[simp] theorem pop_push (s : Stack) (f : Frame) : (s.push f).pop = s := ext rfl

@[simp] theorem top?_push (s : Stack) (f : Frame) : (s.push f).top? = some f := rfl

@[simp] theorem depth_push (s : Stack) (f : Frame) : (s.push f).depth = s.depth + 1 := rfl

@[simp] theorem depth_pop (s : Stack) : s.pop.depth = s.depth - 1 := rfl

end Stack

end IntLisp
