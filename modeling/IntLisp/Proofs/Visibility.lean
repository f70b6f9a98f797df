/-
  IntLisp.Proofs.Visibility
  ─────────────────────────
  **WHAT A FRAME BINDS, AND WHICH FRAMES ARE SEEN.**

  A frame is filled by one binding after the other, and a name may be bound
  again.  Its place is that of its first binding and its value that of its
  last: `Frame.Records` says both about the bindings that were made, and one
  binding more keeps it (`Records.bind`).

  A name is looked up in some of the frames only, from the innermost one to
  the first that was opened for a call.  That frame is looked at, and then
  nothing behind it:

      lookupVisible name fs = (visible fs).findSome? (lookup · name)

  So the parameters of a call are seen in its body, and its callers are not.
-/
import IntLisp.Stack
import Mathlib.Data.List.Nodup
import Mathlib.Data.List.Induction

namespace IntLisp

namespace Frame

/-! ## §1. What is bound in a frame. -/

/-- The last of the bindings for `x` is one to `v`. -/
def LastBinds (pairs : List (String × Value)) (x : String) (v : Value) : Prop :=
  ∃ before after, pairs = before ++ (x, v) :: after ∧ x ∉ after.map Prod.fst

/-- The members of `xs`, each once, in the order in which they come up first. -/
structure FirstOf (xs names : List String) : Prop where
  nodup : names.Nodup
  mem_iff : ∀ x, x ∈ names ↔ x ∈ xs
  ordered : names.Pairwise fun x y => xs.idxOf x < xs.idxOf y

/-- The frame holds what the bindings `pairs`, made one after the other, leave behind. -/
structure Records (f : Frame) (pairs : List (String × Value)) : Prop where
  /-- Each name stands in the place of its first binding. -/
  names : FirstOf (pairs.map Prod.fst) f.names
  /-- A name has the value of its last binding. -/
  lookup_eq_some_iff : ∀ x v, f.lookup x = some v ↔ LastBinds pairs x v
  lookup_eq_none_iff : ∀ x, f.lookup x = none ↔ x ∉ pairs.map Prod.fst

/-- One name more changes nothing if it came up before, and is the last one otherwise. -/
theorem FirstOf.concat {xs names : List String} (h : FirstOf xs names) (x : String) :
    FirstOf (xs ++ [x]) (if x ∈ names then names else names ++ [x]) := by
  -- what is put behind a list does not matter for where a member of it comes up first
  have hfirst : ∀ y ∈ names, (xs ++ [x]).idxOf y = xs.idxOf y :=
    fun y hy => List.idxOf_append_of_mem ((h.mem_iff y).1 hy)
  have hordered : names.Pairwise fun y z => (xs ++ [x]).idxOf y < (xs ++ [x]).idxOf z := by
    refine h.ordered.imp_of_mem fun {y z} hy hz hlt => ?_
    rwa [hfirst y hy, hfirst z hz]
  by_cases hx : x ∈ names
  · rw [if_pos hx]
    refine ⟨h.nodup, fun y => ?_, hordered⟩
    rw [List.mem_append, ← h.mem_iff y, List.mem_singleton]
    constructor
    · exact .inl
    · rintro (hy | rfl)
      · exact hy
      · exact hx
  · rw [if_neg hx]
    have hxs : x ∉ xs := fun hmem => hx ((h.mem_iff x).2 hmem)
    have hlast : (xs ++ [x]).idxOf x = xs.length := by
      rw [List.idxOf_append_of_notMem hxs, List.idxOf_cons_self, Nat.add_zero]
    refine ⟨List.nodup_append.2 ⟨h.nodup, List.nodup_singleton x, ?_⟩, fun y => ?_,
      List.pairwise_append.2 ⟨hordered, List.pairwise_singleton _ x, ?_⟩⟩
    · rintro y hy z hz rfl
      rw [List.mem_singleton.1 hz] at hy
      exact hx hy
    · rw [List.mem_append, List.mem_append, h.mem_iff y]
    · intro y hy z hz
      rw [List.mem_singleton.1 hz, hlast, hfirst y hy]
      exact List.idxOf_lt_length_of_mem ((h.mem_iff y).1 hy)

theorem map_fst_assign (x : String) (v : Value) (bs : List (String × Value)) :
    (assign x v bs).map Prod.fst
      = if x ∈ bs.map Prod.fst then bs.map Prod.fst else bs.map Prod.fst ++ [x] := by
  induction bs with
  | nil => rfl
  | cons b bs ih =>
    obtain ⟨y, w⟩ := b
    unfold assign
    by_cases hy : y = x
    · simp [hy]
    · have hne : x ≠ y := fun h => hy h.symm
      rw [if_neg hy, List.map_cons, ih]
      by_cases hx : x ∈ bs.map Prod.fst <;> simp [hx, hne]

/-- **A name that is new to the frame is listed last, and any other keeps its place.** -/
theorem names_bind (f : Frame) (x : String) (v : Value) :
    (f.bind x v).names = if x ∈ f.names then f.names else f.names ++ [x] :=
  map_fst_assign x v f.bindings

/-- A binding more is the last for its own name, and no other name is touched. -/
theorem lastBinds_concat_iff {pairs : List (String × Value)} {x y : String} {v w : Value} :
    LastBinds (pairs ++ [(x, v)]) y w ↔ if y = x then v = w else LastBinds pairs y w := by
  constructor
  · rintro ⟨before, after, hsplit, hafter⟩
    rcases after.eq_nil_or_concat with rfl | ⟨after, last, rfl⟩
    · obtain ⟨-, heq⟩ := List.append_inj' hsplit rfl
      cases heq
      rw [if_pos rfl]
    · -- the new binding stands behind the one in question, so it is for another name
      rw [List.concat_eq_append, ← List.cons_append, ← List.append_assoc] at hsplit
      obtain ⟨hpairs, heq⟩ := List.append_inj' hsplit rfl
      cases heq
      simp only [List.concat_eq_append, List.map_append, List.map_cons, List.map_nil,
        List.mem_append, List.mem_singleton, not_or] at hafter
      rw [if_neg hafter.2]
      exact ⟨before, after, hpairs, hafter.1⟩
  · intro h
    by_cases hy : y = x
    · rw [if_pos hy] at h
      subst hy
      subst h
      exact ⟨pairs, [], rfl, List.not_mem_nil⟩
    · rw [if_neg hy] at h
      obtain ⟨before, after, rfl, hafter⟩ := h
      refine ⟨before, after ++ [(x, v)], by simp, ?_⟩
      simp only [List.map_append, List.map_cons, List.map_nil, List.mem_append,
        List.mem_singleton, not_or]
      exact ⟨hafter, hy⟩

theorem records_empty (kind : Kind) (name : String) : (Frame.empty kind name).Records [] := by
  refine ⟨⟨.nil, fun _ => Iff.rfl, .nil⟩, ?_, fun _ => iff_of_true rfl List.not_mem_nil⟩
  intro x v
  constructor
  · intro h
    cases h
  · rintro ⟨before, after, hsplit, -⟩
    exact absurd hsplit.symm (by simp)

/-- **A frame records one binding more.** -/
theorem Records.bind {f : Frame} {pairs : List (String × Value)} (h : f.Records pairs)
    (x : String) (v : Value) : (f.bind x v).Records (pairs ++ [(x, v)]) := by
  have hmap : (pairs ++ [(x, v)]).map Prod.fst = pairs.map Prod.fst ++ [x] := by simp
  refine ⟨?_, fun y w => ?_, fun y => ?_⟩
  · rw [hmap, names_bind]
    exact h.names.concat x
  · rw [lookup_bind, lastBinds_concat_iff]
    by_cases hy : y = x
    · rw [if_pos hy, if_pos hy, Option.some.injEq]
    · rw [if_neg hy, if_neg hy, h.lookup_eq_some_iff]
  · rw [lookup_bind, hmap, List.mem_append, List.mem_singleton, not_or]
    by_cases hy : y = x
    · simp [hy]
    · rw [if_neg hy, h.lookup_eq_none_iff]
      exact (and_iff_left hy).symm

/-- **A frame records all bindings that were made in it.** -/
theorem records_bindAll (kind : Kind) (name : String) (pairs : List (String × Value)) :
    ((Frame.empty kind name).bindAll pairs).Records pairs := by
  -- the last binding is the last step
  induction pairs using List.reverseRecOn with
  | nil => exact records_empty kind name
  | append_singleton pairs p ih =>
    have hlast : (Frame.empty kind name).bindAll (pairs ++ [p])
        = ((Frame.empty kind name).bindAll pairs).bind p.1 p.2 := List.foldl_concat ..
    rw [hlast]
    exact ih.bind p.1 p.2

/-! ## §2. What is seen through the frames. -/

/-- The frames from the innermost one to the first that was opened for a call, and all of them
if there is none. -/
def visible (fs : List Frame) : List Frame :=
  fs.takeWhile (fun f => f.kind ≠ .call) ++ (fs.dropWhile fun f => f.kind ≠ .call).take 1

theorem visible_cons (f : Frame) (fs : List Frame) :
    visible (f :: fs) = f :: if f.kind = .call then [] else visible fs := by
  unfold visible
  by_cases hf : f.kind = .call <;> simp [hf]

theorem lookup_eq_none_iff {f : Frame} {x : String} : f.lookup x = none ↔ x ∉ f.names := by
  rw [lookup, names, List.lookup_eq_none_iff]
  simp only [List.mem_map, not_exists, not_and, bne_iff_ne]
  exact forall₂_congr fun p _ => ne_comm

/-- **A name is looked up in the frames that are seen, and in no other.** -/
theorem lookupVisible_eq_findSome? (x : String) (fs : List Frame) :
    lookupVisible x fs = (visible fs).findSome? fun f => f.lookup x := by
  induction fs with
  | nil => rfl
  | cons f fs ih =>
    rw [visible_cons, lookupVisible, List.findSome?_cons]
    cases hlookup : f.lookup x with
    | some v => rfl
    | none =>
      by_cases hf : f.kind = .call
      · simp [hf]
      · simp [hf, ih]

end Frame

/-- What looking up a name on a stack of frames finds. -/
structure Stack.Finds (s : Stack) (x : String) : Prop where
  /-- It is found in the innermost frame that binds it, among those that are seen. -/
  lookup_eq_some_iff : ∀ v, s.lookup x = some v ↔
    ∃ above f below, Frame.visible s.frames = above ++ f :: below
      ∧ (∀ g ∈ above, x ∉ g.names) ∧ f.lookup x = some v
  /-- It is not found if none of them binds it, and only then. -/
  lookup_eq_none_iff : s.lookup x = none ↔ ∀ f ∈ Frame.visible s.frames, x ∉ f.names

/-- **A name is found in the innermost frame that binds it, up to the first of a call.** -/
theorem Stack.finds (s : Stack) (x : String) : s.Finds x := by
  have hlookup : s.lookup x = (Frame.visible s.frames).findSome? fun f => f.lookup x :=
    Frame.lookupVisible_eq_findSome? x s.frames
  refine ⟨fun v => ?_, ?_⟩
  · rw [hlookup, List.findSome?_eq_some_iff]
    constructor
    · rintro ⟨above, f, below, hsplit, hf, habove⟩
      exact ⟨above, f, below, hsplit, fun g hg => Frame.lookup_eq_none_iff.1 (habove g hg), hf⟩
    · rintro ⟨above, f, below, hsplit, habove, hf⟩
      exact ⟨above, f, below, hsplit, hf, fun g hg => Frame.lookup_eq_none_iff.2 (habove g hg)⟩
  · rw [hlookup, List.findSome?_eq_none_iff]
    exact forall₂_congr fun f _ => Frame.lookup_eq_none_iff

/-- **Names are bound in frames and seen through them.**  A frame lists each name that was bound
in it once, in the order of the first bindings, and has for it the value of the last.  On a
stack a name has the value that the innermost frame has for it, of all frames that bind it from
the top down to the first of a call, and none if there is no such frame. -/
theorem names_bound_and_seen :
    (∀ (kind : Frame.Kind) (name : String) (pairs : List (String × Value)),
        ((Frame.empty kind name).bindAll pairs).Records pairs)
      ∧ ∀ (s : Stack) (x : String), s.Finds x :=
  ⟨Frame.records_bindAll, Stack.finds⟩

/-- A name bound twice keeps its place, and a call hides what is bound below it. -/
theorem names_bound_and_seen_shadowed :
    let inner := (Frame.empty .scope "let").bindAll [("x", .int 1), ("y", .int 2), ("x", .int 3)]
    let call := (Frame.empty .call "f").bindAll [("x", .int 4), ("z", .int 5)]
    let outer := (Frame.empty .scope "let").bindAll [("w", .int 6)]
    let s := ((Stack.empty.push outer).push call).push inner
    inner.names = ["x", "y"]
      ∧ Frame.LastBinds [("x", .int 1), ("y", .int 2), ("x", .int 3)] "x" (.int 3)
      ∧ s.lookup "x" = some (.int 3) ∧ s.lookup "z" = some (.int 5) ∧ s.lookup "w" = none := by
  intro inner call outer s
  obtain ⟨hrecords, hfinds⟩ := names_bound_and_seen
  refine ⟨by decide, ?_, ?_, ?_, ?_⟩
  · exact ((hrecords .scope "let" _).lookup_eq_some_iff "x" (.int 3)).1 (by decide)
  · exact ((hfinds s "x").lookup_eq_some_iff _).2
      ⟨[], inner, [call], by decide, by simp, by decide⟩
  · exact ((hfinds s "z").lookup_eq_some_iff _).2
      ⟨[inner], call, [], by decide, by decide, by decide⟩
  · exact (hfinds s "w").lookup_eq_none_iff.2 (by decide)

end IntLisp
