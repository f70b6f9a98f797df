/-
  IntLisp.Proofs.Indentation
  ──────────────────────────
  **A DUMP SAYS ALL ABOUT ITS TREE.**

  The dump of a tree holds no parentheses around its branches: that one node
  is inside another shows in the indentation alone.  What the lines are is
  said by a relation (`Outlined`), one line a node, parents first, and the
  tree is read back from the lines upwards:

      below a line    the trees that the lines below it make up,
      with the line   those of them that stand deeper are its children.

  A value ends at the first space of its line and a line at the first
  newline.  No word holds either of the two, so for whatever can be read
  from a text the dump tells the whole tree, but for the places.
-/
import IntLisp.Node.Forest
import IntLisp.Proofs.Canonical

namespace IntLisp

/-! ## §1. One line of a dump. -/

namespace Text

theorem newline_not_mem_hexDigits (width n : Nat) : '\n' ∉ hexDigits width n := by
  have hdigit : ∀ d < 16, '\n' ≠ Nat.digitChar d := by decide
  induction width generalizing n with
  | zero => simp [hexDigits]
  | succ width ih => simp [hexDigits, ih, hdigit _ (Nat.mod_lt n (by omega))]

theorem newline_not_mem_escape (c : Char) : '\n' ∉ escape c := by
  have hite : ∀ (p : Prop) [Decidable p] {cs ds : List Char}, (p → '\n' ∉ cs) → '\n' ∉ ds →
      '\n' ∉ if p then cs else ds := by
    intro p _ cs ds hcs hds
    by_cases hp : p
    · rw [if_pos hp]
      exact hcs hp
    · rw [if_neg hp]
      exact hds
  have hshown : isPrintable c = true → '\n' ∉ [c] := by
    rintro h hc
    rw [← List.mem_singleton.1 hc] at h
    exact absurd h (by decide)
  -- only what is shown as it is could be a newline, and a newline is not printable
  unfold escape
  refine hite _ (by simp) (hite _ (by simp) (hite _ hshown ?_))
  repeat' refine hite _ ?_ ?_
  all_goals simp [newline_not_mem_hexDigits]

/-- A quoted text stands on one line, whatever the text is. -/
theorem newline_not_mem_quote (s : String) : '\n' ∉ (quote s).toList := by
  simp [quote, newline_not_mem_escape]

theorem IsWord.newline_not_mem {w : String} (h : IsWord w) : '\n' ∉ w.toList := by
  intro hmem
  exact h.not_reserved _ hmem (by simp [reserved])

theorem IsWord.space_not_mem {w : String} (h : IsWord w) : ' ' ∉ w.toList := by
  intro hmem
  exact h.not_reserved _ hmem (by simp [reserved])

end Text

theorem Token.newline_not_mem_describe (t : Token) : '\n' ∉ t.describe.toList := by
  have hname : '\n' ∉ t.kind.name.toList := by
    cases t.kind <;> simp [Kind.name]
  simp [describe, hname, Text.newline_not_mem_quote, (Text.isWord_decimal _).newline_not_mem]

namespace Node

/-- The value of the node, if it has one, is a word of the language. -/
def IsLegible : Node → Prop
  | symbol _ name => Text.IsWord name
  | foreign _ _ _ => False
  | int _ _ | expression _ _ | list _ _ => True

theorem IsSpellable.isLegible {n : Node} (h : n.IsSpellable) : n.IsLegible := by
  cases n with
  | symbol _ name =>
    rw [IsSpellable] at h
    exact h.toIsWord
  | foreign _ _ _ => simp [IsSpellable] at h
  | int _ _ | expression _ _ | list _ _ => trivial

/-- The line says of the node at the given level how deep it is, its kind and its value. -/
structure IsLineAt (level : Nat) (n : Node) (line : String) : Prop where
  legible : n.IsLegible
  newline_not_mem : '\n' ∉ line.toList
  /-- Four spaces a level, the kind in parentheses, and behind it the canonical text of a leaf. -/
  layout : ∃ more, line = String.ofList (List.replicate (4 * level) ' ') ++ "(" ++ n.kindName
    ++ "): " ++ (if n.isVector then "" else n.encode ++ " ") ++ more

theorem IsLegible.isWord_encode {n : Node} (h : n.IsLegible) (hleaf : n.isVector = false) :
    Text.IsWord n.encode := by
  cases n with
  | int _ value => exact Text.isWord_decimal value
  | symbol _ name => exact h
  | expression _ _ => cases hleaf
  | list _ _ => cases hleaf
  | foreign _ _ _ => cases h

theorem IsLegible.kindName_mem {n : Node} (h : n.IsLegible) :
    n.kindName ∈ ["int", "symbol", "expression", "list"] := by
  cases n with
  | foreign _ _ _ => cases h
  | int _ _ | symbol _ _ | expression _ _ | list _ _ => simp [kindName]

/-- **The line of a legible node is what a line should be.** -/
theorem exists_isLineAt {n : Node} (h : n.IsLegible) (level : Nat) :
    ∃ line, n.dumpLine level = line ++ "\n" ∧ n.IsLineAt level line := by
  have hkind : '\n' ∉ n.kindName.toList := by
    have hall : ∀ kind ∈ ["int", "symbol", "expression", "list"], '\n' ∉ kind.toList := by decide
    exact hall _ h.kindName_mem
  have hshown : '\n' ∉ (showToken n.token?).toList := by
    cases n.token? with
    | none => decide
    | some t => simp [showToken, t.newline_not_mem_describe]
  refine ⟨_, rfl, h, ?_, _, rfl⟩
  cases hleaf : n.isVector with
  | true => simp [hkind, hshown, List.mem_replicate]
  | false => simp [hkind, hshown, List.mem_replicate, (h.isWord_encode hleaf).newline_not_mem]

/-! ## §2. Lines of a dump, parents first. -/

/-- The lines are those of the nodes and of all nodes inside them: one line a node, first that
of a node, then those of its children a level deeper, then those of its neighbours. -/
inductive Outlined : Nat → List Node → List String → Prop where
  | nil {level : Nat} : Outlined level [] []
  | cons {level : Nat} {n : Node} {ns : List Node} {line : String} {inside behind : List String}
      (hline : n.IsLineAt level line) (hinside : Outlined (level + 1) n.children inside)
      (hbehind : Outlined level ns behind) : Outlined level (n :: ns) (line :: (inside ++ behind))

theorem Outlined.newline_not_mem {level : Nat} {ns : List Node} {lines : List String}
    (h : Outlined level ns lines) : ∀ line ∈ lines, '\n' ∉ line.toList := by
  induction h with
  | nil => simp
  | cons hline _ _ ihinside ihbehind =>
    simp only [List.mem_cons, List.mem_append]
    rintro line (rfl | hmem | hmem)
    · exact hline.newline_not_mem
    · exact ihinside line hmem
    · exact ihbehind line hmem

/-- The dump of a tree, from the nodes listed. -/
def dumpOf (entries : List (Nat × Node)) : String :=
  String.join (entries.map fun e => e.2.dumpLine e.1)

/-- Listed before any others at any level, the nodes have lines of their own. -/
def HaveLines (ns : List Node) : Prop :=
  ∀ (level : Nat) (entries : List (Nat × Node)), ∃ lines, Outlined level ns lines
    ∧ dumpOf (preorderAllOnto level ns entries)
        = String.join (lines.map (· ++ "\n")) ++ dumpOf entries

theorem haveLines_nil : HaveLines [] := by
  intro level entries
  exact ⟨[], .nil, by simp [preorderAllOnto]⟩

theorem preorderOnto_eq (level : Nat) (n : Node) (entries : List (Nat × Node)) :
    preorderOnto level n entries
      = (level, n) :: preorderAllOnto (level + 1) n.children entries := by
  cases n <;> simp [preorderOnto, preorderAllOnto, children]

theorem dumpOf_cons (level : Nat) (n : Node) (entries : List (Nat × Node)) :
    dumpOf ((level, n) :: entries) = n.dumpLine level ++ dumpOf entries := by
  simp [dumpOf]

/-- One node more: its line, the lines inside it, and the lines behind it. -/
theorem haveLines_cons {n : Node} {ns : List Node} (h : n.IsLegible)
    (hinside : HaveLines n.children) (hbehind : HaveLines ns) : HaveLines (n :: ns) := by
  intro level entries
  obtain ⟨behind, houtline, hdump⟩ := hbehind level entries
  obtain ⟨inside, houtline', hdump'⟩ := hinside (level + 1) (preorderAllOnto level ns entries)
  obtain ⟨line, hline, hat⟩ := exists_isLineAt h level
  refine ⟨line :: (inside ++ behind), .cons hat houtline' houtline, ?_⟩
  rw [preorderAllOnto, preorderOnto_eq, dumpOf_cons, hline, hdump', hdump]
  simp [String.append_assoc]

mutual
theorem haveLines_children : ∀ n : Node, n.IsSpellable → HaveLines n.children
  | int _ _, _ => haveLines_nil
  | symbol _ _, _ => haveLines_nil
  | expression _ children, h => by
    rw [IsSpellable] at h
    exact haveLines_of_allSpellable children h
  | list _ _, h => by simp [IsSpellable] at h
  | foreign _ _ _, h => by simp [IsSpellable] at h
theorem haveLines_of_allSpellable : ∀ ns : List Node, AllSpellable ns → HaveLines ns
  | [], _ => haveLines_nil
  | n :: ns, h => by
    rw [AllSpellable] at h
    exact haveLines_cons h.1.isLegible (haveLines_children n h.1) (haveLines_of_allSpellable ns h.2)
end

/-- **What is read from a text has a dump, one line a node.** -/
theorem exists_dump {ns : List Node} (h : AllSpellable ns) (token : Option Token) :
    ∃ lines, (list token ns).dump? = some (String.join (lines.map (· ++ "\n")))
      ∧ Outlined 0 [list token ns] lines := by
  have hroot : (list token ns).IsLegible := trivial
  obtain ⟨lines, houtline, hdump⟩ :=
    haveLines_cons hroot (haveLines_of_allSpellable ns h) haveLines_nil 0 []
  have hknown : (list token ns).isKnown = true := allKnown_of_allSpellable ns h
  refine ⟨lines, ?_, houtline⟩
  rw [dump?, if_pos hknown]
  simpa [dumpOf, preorderAllOnto, dump, preorder] using hdump

/-! ## §3. Trees from lines. -/

/-- The node without children and token. -/
def alone (n : Node) : Node := Forest.assemble n.bare []

theorem assemble_alone (n : Node) :
    Forest.assemble n.alone (n.children.map bare) = n.bare := by
  cases n <;> simp [alone, Forest.assemble, bare, children, bareAll_eq_map]

/-- The node of the given kind, with the value written `word` if it has one. -/
def ofKind (kind word : String) : Node :=
  if kind = "int" then int none ((Text.numeral? word).getD 0)
  else if kind = "symbol" then symbol none word
  else if kind = "expression" then expression none []
  else list none []

/-- The level of a line, from the spaces it begins with, and the node it names. -/
def ofLine (line : List Char) : Nat × Node :=
  let named := (line.dropWhile (· = ' ')).drop 1
  let kind := named.takeWhile (· ≠ ')')
  let word := ((named.dropWhile (· ≠ ')')).drop 3).takeWhile (· ≠ ' ')
  ((line.takeWhile (· = ' ')).length / 4, ofKind (String.ofList kind) (String.ofList word))

/-- Set a node before trees: those deeper than it, up to the first that is not, are inside it. -/
def plant (entry : Nat × Node) (below : List (Nat × Node)) : List (Nat × Node) :=
  let inside := below.takeWhile (entry.1 < ·.1)
  (entry.1, Forest.assemble entry.2 (inside.map Prod.snd)) :: below.dropWhile (entry.1 < ·.1)

/-- The trees that the nodes on lines make up. -/
def regrow (entries : List (Nat × Node)) : List (Nat × Node) := entries.foldr plant []

/-- The tree that a text is the dump of. -/
def ofDump? (text : String) : Option Node :=
  let lines := (text.toList.splitOn '\n').dropLast
  (regrow (lines.map ofLine)).head?.map Prod.snd

theorem ofKind_encode {n : Node} (h : n.IsLegible) (word : String)
    (hword : n.isVector = false → word = n.encode) : ofKind n.kindName word = n.alone := by
  cases n with
  | int _ value =>
    rw [hword rfl]
    simp [ofKind, kindName, encode, Text.numeral?_decimal, alone, bare, Forest.assemble]
  | symbol _ name =>
    rw [hword rfl]
    simp [ofKind, kindName, encode, alone, bare, Forest.assemble]
  | expression _ _ => simp [ofKind, kindName, alone, bare, Forest.assemble]
  | list _ _ => simp [ofKind, kindName, alone, bare, Forest.assemble]
  | foreign _ _ _ => cases h

/-- A stretch of characters ends at the first one that does not belong to it. -/
theorem span_append_cons {p : Char → Bool} {cs : List Char} {d : Char} (hcs : ∀ c ∈ cs, p c = true)
    (hd : p d = false) (ds : List Char) :
    (cs ++ d :: ds).takeWhile p = cs ∧ (cs ++ d :: ds).dropWhile p = d :: ds := by
  constructor
  · rw [List.takeWhile_append_of_pos hcs, List.takeWhile_cons_of_neg (by simp [hd]),
      List.append_nil]
  · rw [List.dropWhile_append_of_pos hcs, List.dropWhile_cons_of_neg (by simp [hd])]

theorem span_not_mem {cs : List Char} {d : Char} (hd : d ∉ cs) (ds : List Char) :
    (cs ++ d :: ds).takeWhile (· ≠ d) = cs ∧ (cs ++ d :: ds).dropWhile (· ≠ d) = d :: ds := by
  refine span_append_cons (fun c hc => ?_) (by simp) ds
  exact decide_eq_true fun heq => hd (heq ▸ hc)

/-- **A line says which node it is about.** -/
theorem IsLineAt.ofLine_eq {level : Nat} {n : Node} {line : String} (h : n.IsLineAt level line) :
    ofLine line.toList = (level, n.alone) := by
  obtain ⟨more, hlayout⟩ := h.layout
  have hchars : line.toList = List.replicate (4 * level) ' ' ++ '(' :: (n.kindName.toList
      ++ ')' :: (':' :: ' ' :: ((if n.isVector then "" else n.encode ++ " ").toList
        ++ more.toList))) := by
    rw [hlayout]
    simp
  -- the spaces end at the parenthesis, and the kind ends at the next one
  have hspaces : ∀ c ∈ List.replicate (4 * level) ' ', decide (c = ' ') = true := by
    simp [List.mem_replicate]
  have hindent := span_append_cons hspaces (by decide : decide ('(' = ' ') = false)
  have hclosing : ')' ∉ n.kindName.toList := by
    have hall : ∀ kind ∈ ["int", "symbol", "expression", "list"], ')' ∉ kind.toList := by decide
    exact hall _ h.legible.kindName_mem
  unfold ofLine
  rw [hchars]
  simp only [hindent, span_not_mem hclosing, List.drop_succ_cons, List.drop_zero,
    List.length_replicate]
  rw [String.ofList_toList, ofKind_encode h.legible, Nat.mul_div_cancel_left _ (by omega)]
  intro hleaf
  have hvalue := span_not_mem (h.legible.isWord_encode hleaf).space_not_mem more.toList
  rw [hleaf, if_neg Bool.false_ne_true, String.toList_append, List.append_assoc]
  exact (congrArg String.ofList hvalue.1).trans String.ofList_toList

/-- Trees at a level or above it are not inside what stands there. -/
theorem plant_append {level : Nat} (shape : Node) (children : List Node) {below : List (Nat × Node)}
    (hbelow : ∀ e ∈ below.head?, e.1 ≤ level) :
    plant (level, shape) (children.map (level + 1, ·) ++ below)
      = (level, Forest.assemble shape children) :: below := by
  have hinside : ∀ e ∈ children.map (level + 1, ·), decide (level < e.1) = true := by
    simp
  have hstop : below.takeWhile (level < ·.1) = [] ∧ below.dropWhile (level < ·.1) = below := by
    cases below with
    | nil => simp
    | cons e below =>
      have hle := hbelow e rfl
      simp [hle]
  unfold plant
  rw [List.takeWhile_append_of_pos hinside, List.dropWhile_append_of_pos hinside, hstop.1, hstop.2]
  simp [Function.comp_def]

/-- **Lines are read back as the nodes they are about**, whatever is read from the lines below
them, if it does not stand deeper. -/
theorem Outlined.regrow_eq {level : Nat} {ns : List Node} {lines : List String}
    (h : Outlined level ns lines) (entries : List (Nat × Node))
    (hentries : ∀ e ∈ (regrow entries).head?, e.1 ≤ level) :
    regrow (lines.map (fun line => ofLine line.toList) ++ entries)
      = ns.map (level, ·.bare) ++ regrow entries := by
  induction h generalizing entries with
  | nil => rfl
  | @cons level n ns line inside behind hline _ _ ihinside ihbehind =>
    -- from below: the neighbours stand where the children end, and then the line takes these
    have hbehind := ihbehind entries hentries
    have hhead : ∀ e ∈ (ns.map (level, ·.bare) ++ regrow entries).head?, e.1 ≤ level := by
      cases ns with
      | nil => exact hentries
      | cons m ns => simp
    have hinside := ihinside (behind.map (fun line => ofLine line.toList) ++ entries) (by
      rw [hbehind]
      intro e he
      exact Nat.le_succ_of_le (hhead e he))
    rw [hbehind] at hinside
    have hplant := plant_append n.alone (n.children.map bare) hhead
    rw [List.map_map, assemble_alone] at hplant
    calc regrow ((line :: (inside ++ behind)).map (fun line => ofLine line.toList) ++ entries)
        = plant (ofLine line.toList) (regrow (inside.map (fun line => ofLine line.toList)
            ++ (behind.map (fun line => ofLine line.toList) ++ entries))) := by
          simp [regrow]
      _ = plant (level, n.alone) (n.children.map (level + 1, ·.bare)
            ++ (ns.map (level, ·.bare) ++ regrow entries)) := by
          rw [hline.ofLine_eq, hinside]
      _ = (n :: ns).map (level, ·.bare) ++ regrow entries := hplant

theorem lines_join {lines : List String} (h : ∀ line ∈ lines, '\n' ∉ line.toList) :
    (String.join (lines.map (· ++ "\n"))).toList.splitOn '\n'
      = lines.map String.toList ++ [[]] := by
  induction lines with
  | nil => simp
  | cons line lines ih =>
    rw [List.forall_mem_cons] at h
    have hline := List.splitOn_append_cons_self_of_not_mem h.1
      (String.join (lines.map (· ++ "\n"))).toList
    rw [ih h.2] at hline
    simpa using hline

/-- **A tree is read back from its lines.** -/
theorem Outlined.ofDump?_eq {n : Node} {lines : List String} (h : Outlined 0 [n] lines) :
    ofDump? (String.join (lines.map (· ++ "\n"))) = some n.bare := by
  have hregrow := h.regrow_eq [] (by simp [regrow])
  unfold ofDump?
  rw [lines_join h.newline_not_mem, List.dropLast_concat]
  simp only [List.append_nil] at hregrow
  simp [Function.comp_def, hregrow]

end Node

/-! ## §4. What is read from a text. -/

/-- **A dump determines its tree.**  Whatever is read from an input has a dump: one line for
each node, parents first, with four spaces a level, the kind in parentheses and the canonical
text of a leaf.  All of the tree but its places is read back from that text, so inputs with
one dump have one tree. -/
theorem tree_read_back_from_dump (input : Input) (root : Node) (h : input.source.parse = .ok root) :
    ∃ lines, root.dump? = some (String.join (lines.map (· ++ "\n")))
      ∧ Node.Outlined 0 [root] lines
      ∧ Node.ofDump? (String.join (lines.map (· ++ "\n"))) = some root.bare
      ∧ ∀ (input' : Input) (root' : Node), input'.source.parse = .ok root' →
          root'.dump? = root.dump? → root'.bare = root.bare := by
  obtain ⟨ns, rfl, hns⟩ := Input.allSpellable_of_parse h
  obtain ⟨lines, hdump, houtline⟩ := Node.exists_dump hns none
  refine ⟨lines, hdump, houtline, houtline.ofDump?_eq, ?_⟩
  intro input' root' h' heq
  obtain ⟨ms, rfl, hms⟩ := Input.allSpellable_of_parse h'
  obtain ⟨lines', hdump', houtline'⟩ := Node.exists_dump hms none
  have htext := Option.some.inj (hdump'.symm.trans (heq.trans hdump))
  have hread := houtline'.ofDump?_eq
  rw [htext, houtline.ofDump?_eq] at hread
  exact (Option.some.inj hread).symm

/-- An expression without children, an integer that was not written in its canonical form, and
a tree that another text with a comment has as well. -/
theorem tree_read_back_from_dump_nested :
    let text := "(list): (<nil>)\n    (expression): ((:open_expression \"(\" [1 1]))\n"
      ++ "        (symbol): f ((:word \"f\" [1 2]))\n"
      ++ "        (expression): ((:open_expression \"(\" [1 4]))\n"
      ++ "        (int): -7 ((:word \"-07\" [1 7]))\n    (symbol): é ((:word \"é\" [1 12]))\n"
    ∃ root root', (Input.ofString "(f () -07) é").source.parse = .ok root
      ∧ (Input.ofString "(f () -07) é ; done").source.parse = .ok root'
      ∧ root.dump? = some text ∧ root'.dump? = some text
      ∧ Node.ofDump? text = some root.bare ∧ root'.bare = root.bare
      ∧ ∃ lines, text = String.join (lines.map (· ++ "\n")) ∧ Node.Outlined 0 [root] lines := by
  intro text
  have hparsed : ∀ {parsed : Except Error Node}, Node.dump? <$> parsed = .ok (some text) →
      ∃ root, parsed = .ok root ∧ root.dump? = some text := by
    rintro (e | root) h
    · cases h
    · exact ⟨root, rfl, Except.ok.inj h⟩
  obtain ⟨root, hroot, hdump⟩ := hparsed
    (by decide +kernel : Node.dump? <$> (Input.ofString "(f () -07) é").source.parse = _)
  obtain ⟨root', hroot', hdump'⟩ := hparsed
    (by decide +kernel : Node.dump? <$> (Input.ofString "(f () -07) é ; done").source.parse = _)
  obtain ⟨lines, hlines, houtline, hread, hsame⟩ := tree_read_back_from_dump _ root hroot
  have htext := Option.some.inj (hdump.symm.trans hlines)
  rw [← htext] at hread
  exact ⟨root, root', hroot, hroot', hdump, hdump', hread,
    hsame _ root' hroot' (hdump'.trans hdump.symm), lines, htext, houtline⟩

end IntLisp
