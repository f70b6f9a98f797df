/-
  IntLisp.Proofs.Composition
  ──────────────────────────
  **TEXTS ONE BELOW THE OTHER.**

  A newline ends every token, so a text that is put on the line below another
  is cut into the same lexemes as alone, further down:

      lexemes (cs ++ '\n' :: ds) = lexemes cs ++ ['\n'] :: lexemes ds

  Its tokens have the same texts and columns as alone, and their lines and
  offsets are those of a reader who has passed the upper text and a newline.

  If all statements of the upper text are sound, those of the lower follow
  them as they are, but for their lines.  Evaluation sees nothing of a line,
  and of the log, where lines are reported, it sees nothing at all.  So the
  two texts can be run one after the other, or together.
-/
import IntLisp.Proofs.Coupling
import IntLisp.Proofs.Cutting

namespace IntLisp

/-! ## §1. A newline between two texts. -/

theorem Token.Kind.continues_newline (k : Kind) : k.continues '\n' = false := by
  cases k <;> rfl

namespace Token

theorem Lexed.append_newline {ls ms : List (List Char)} (hls : Lexed ls) (hms : Lexed ms) :
    Lexed (ls ++ ['\n'] :: ms) := by
  induction hls with
  | nil =>
    -- a newline is a lexeme of its own, whatever follows
    refine .cons (fun x hx => by cases hx) (fun x _ => ?_) hms
    rfl
  | @cons c cs ls hcs hstop _ ih =>
    rw [List.cons_append]
    refine .cons hcs (fun x hx => ?_) ih
    rw [List.flatten_append, List.head?_append] at hx
    cases hhead : ls.flatten.head? with
    | some y =>
      rw [hhead] at hx
      cases hx
      exact hstop x hhead
    | none =>
      rw [hhead] at hx
      cases hx
      exact Kind.continues_newline _

/-- **A newline separates the lexemes before it from those behind it.** -/
theorem lexemes_newline (cs ds : List Char) :
    lexemes (cs ++ '\n' :: ds) = lexemes cs ++ ['\n'] :: lexemes ds := by
  have hlexed := (lexed_lexemes cs).append_newline (lexed_lexemes ds)
  have hflatten := hlexed.lexemes_flatten
  rwa [List.flatten_append, flatten_lexemes, List.flatten_cons, flatten_lexemes,
    List.singleton_append] at hflatten

end Token

/-! ## §2. Places further down. -/

theorem Position.advanceBy_moved (lines : Nat) (p : Position) (cs : List Char) :
    (p.moved lines).advanceBy cs = (p.advanceBy cs).moved lines := by
  induction cs generalizing p with
  | nil => rfl
  | cons c cs ih =>
    have hadvance : (p.moved lines).advance c = (p.advance c).moved lines := by
      unfold advance moved
      split
      · simp [Int.add_right_comm]
      · rfl
    rw [advanceBy_cons, hadvance, ih, advanceBy_cons]

/-- The place below a text is the beginning of a line. -/
theorem Position.advanceBy_start_newline (cs : List Char) :
    start.advanceBy (cs ++ ['\n']) = start.moved (1 + cs.count '\n') := by
  have hline : (1 + cs.count '\n' + 1 : Int) = 1 + (1 + cs.count '\n' : Nat) := by omega
  rw [advanceBy_append, advanceBy_start]
  exact congrArg (Position.mk · 1) hline

theorem Token.placed_moved (lines bytes offset : Nat) (pos : Position) (ls : List (List Char)) :
    placed (offset + bytes) (pos.moved lines) ls
      = (placed offset pos ls).map (moved lines bytes) := by
  induction ls generalizing offset pos with
  | nil => rfl
  | cons l ls ih =>
    rw [placed, placed, List.map_cons, Position.advanceBy_moved, Nat.add_right_comm, ih]
    rfl

/-- **Behind a newline lexemes are the same tokens as alone**, further down. -/
theorem Token.placed_newline (offset : Nat) (cs : List Char) (ms : List (List Char)) :
    placed offset .start (lexemes cs ++ ['\n'] :: ms)
      = placed offset .start (lexemes cs)
          ++ ⟨.newline, "\n", offset + (String.ofList cs).utf8ByteSize, .behind cs⟩
          :: (placed 0 .start ms).map
              (moved (1 + cs.count '\n') (offset + (String.ofList cs).utf8ByteSize + 1)) := by
  have hbelow : (Position.start.advanceBy cs).advanceBy ['\n']
      = Position.start.moved (1 + cs.count '\n') := by
    rw [← Position.advanceBy_append, Position.advanceBy_start_newline]
  have hsize : (String.ofList ['\n']).utf8ByteSize = 1 := rfl
  rw [placed_append, flatten_lexemes, placed, hbelow, hsize, ← placed_moved, Nat.zero_add,
    Position.advanceBy_start]
  rfl

/-! ## §3. The tokens of two texts. -/

/-- A mark before a text is found again and dropped. -/
theorem Source.dropMark_mark_append {src : Source} {cs : List Char}
    (h : src.marked = false → isMarked cs = false) :
    isMarked (src.mark ++ cs) = src.marked ∧ dropMark (src.mark ++ cs) = cs := by
  unfold mark dropMark
  cases hmarked : src.marked with
  | true => exact ⟨rfl, rfl⟩
  | false => simp [h hmarked]

namespace Input

/-- The text of `b` on the line below the text of `a`. -/
def above (a b : Input) : Input :=
  ⟨a.bytes ++ "\n".toUTF8 ++ b.bytes, a.failure.or b.failure⟩

open Token

variable {a b : Input}

/-- A text without a mark does not begin with one. -/
theorem isMarked_chars (h : a.source.fault = none) (hmarked : a.source.marked = false) :
    Source.isMarked a.source.chars = false := by
  have hchars := (Source.chars_of_fault h).2.2
  have hmarked : Source.isMarked (decodeFrom a.bytes 0).1 = false := hmarked
  rw [Source.dropMark, hmarked] at hchars
  show Source.isMarked (Source.ofChars _ _).chars = false
  rw [hchars]
  exact hmarked

/-- The bytes of two texts, one below the other, are those of one text. -/
theorem above_eq_ofString (ha : a.source.fault = none) (hb : b.source.fault = none)
    (hmark : b.source.marked = false) :
    a.above b
      = ofString (String.ofList (a.source.mark ++ (a.source.chars ++ '\n' :: b.source.chars))) := by
  obtain ⟨hafailure, -, habytes⟩ := bytes_of_fault ha
  obtain ⟨hbfailure, -, hbbytes⟩ := bytes_of_fault hb
  have hbmark : b.source.mark = [] := by
    rw [Source.mark, hmark]
    rfl
  have hnewline : "\n".toUTF8 = ['\n'].utf8Encode := (String.utf8Encode_toList).symm
  have hcons : ('\n' :: b.source.chars).utf8Encode
      = ['\n'].utf8Encode ++ b.source.chars.utf8Encode := List.utf8Encode_cons
  have hbytes : a.bytes ++ "\n".toUTF8 ++ b.bytes
      = (a.source.mark ++ (a.source.chars ++ '\n' :: b.source.chars)).utf8Encode := by
    rw [habytes, hbbytes, hbmark, hnewline, List.utf8Encode_nil, ByteArray.empty_append,
      List.utf8Encode_append, List.utf8Encode_append, hcons, ByteArray.append_assoc,
      ByteArray.append_assoc]
  rw [above, hafailure, hbfailure, hbytes]
  rfl

/-- **The characters of two texts, one below the other.** -/
theorem source_above (ha : a.source.fault = none) (hb : b.source.fault = none)
    (hmark : b.source.marked = false) :
    (a.above b).source
      = ⟨a.source.marked, a.source.chars ++ '\n' :: b.source.chars, none⟩ := by
  have hnul : '\x00' ∉ a.source.mark ++ (a.source.chars ++ '\n' :: b.source.chars) := by
    simp [a.source.nul_not_mem_mark, (bytes_of_fault ha).2.1, (bytes_of_fault hb).2.1]
  -- the mark of the upper text is that of both, and the lower one has none to lose
  have hmarked : a.source.marked = false →
      Source.isMarked (a.source.chars ++ '\n' :: b.source.chars) = false := by
    intro hmarked
    have hchars := isMarked_chars ha hmarked
    cases hcs : a.source.chars with
    | nil => rfl
    | cons c cs =>
      rw [hcs] at hchars
      exact hchars
  obtain ⟨his, hdrop⟩ := Source.dropMark_mark_append hmarked
  rw [above_eq_ofString ha hb hmark, source_ofString, Source.ofString_eq (by simpa using hnul),
    String.toList_ofList, his, hdrop]

/-- The tokens of the upper text stand where they stand alone. -/
theorem placed_upper (ha : a.source.fault = none) (hb : b.source.fault = none)
    (hmark : b.source.marked = false) :
    placed (a.above b).source.firstOffset .start (lexemes a.source.chars) = a.source.body := by
  have hsource := source_above ha hb hmark
  -- a mark with nothing behind it counts for no offset, but then there is no token
  cases hcs : a.source.chars with
  | nil => rw [Source.body, hcs, lexemes_nil, placed, placed]
  | cons c cs => rw [Source.body, hcs, Source.firstOffset, Source.firstOffset, hsource, hcs]; rfl

/-- **The tokens of two texts, one below the other.** -/
theorem body_above (ha : a.source.fault = none) (hb : b.source.fault = none)
    (hmark : b.source.marked = false) :
    ∃ (newline : Token) (bytes : Nat), newline.content = (.newline, "\n")
      ∧ (a.above b).source.body
        = a.source.body
            ++ newline :: b.source.body.map (Token.moved (1 + a.source.chars.count '\n') bytes) := by
  have hchars : (a.above b).source.chars = a.source.chars ++ '\n' :: b.source.chars := by
    rw [source_above ha hb hmark]
  have hlower : placed 0 .start (lexemes b.source.chars) = b.source.body := by
    rw [Source.body, Source.firstOffset, hmark]
    rfl
  rw [Source.body, hchars, lexemes_newline, placed_newline, placed_upper ha hb hmark, hlower]
  exact ⟨_, _, rfl, rfl⟩

/-- The newline stands behind all bytes of the upper text. -/
theorem newlineOffset_eq (ha : a.source.fault = none) (hb : b.source.fault = none)
    (hmark : b.source.marked = false) :
    (a.above b).source.firstOffset + (String.ofList a.source.chars).utf8ByteSize
      = a.bytes.size := by
  have hsource := source_above ha hb hmark
  have hmarks : (a.above b).source.mark = a.source.mark := by
    rw [Source.mark, Source.mark, hsource]
  -- the newline is a character, so the mark is counted even if it stands alone in its line
  have hchars : (a.above b).source.chars ≠ [] := by
    rw [hsource]
    exact List.append_ne_nil_of_right_ne_nil _ (List.cons_ne_nil _ _)
  rw [Source.firstOffset_eq hchars, hmarks, (bytes_of_fault ha).2.2, ByteArray.size_append]
  rfl

/-- **All tokens of two texts, one below the other**, with their places. -/
theorem scan_above (ha : a.source.fault = none) (hb : b.source.fault = none)
    (hmark : b.source.marked = false) :
    (a.above b).source.scan
      = ⟨a.source.body
          ++ ⟨.newline, "\n", a.bytes.size, .behind a.source.chars⟩
          :: b.source.scan.tokens.map
              (Token.moved (1 + a.source.chars.count '\n') (a.bytes.size + 1)), none⟩ := by
  have hsource := source_above ha hb hmark
  have hfault : (a.above b).source.fault = none := by
    rw [hsource]
  have hchars : (a.above b).source.chars = a.source.chars ++ '\n' :: b.source.chars := by
    rw [hsource]
  -- the end of the lower text is placed like any other of its lexemes
  have hlower : placed 0 .start (lexemes b.source.chars ++ [[]]) = b.source.scan.tokens := by
    rw [(Source.scan_eq_placed hb).1, Source.firstOffset, hmark]
    rfl
  rw [(Source.scan_eq_placed hfault).1, hchars, lexemes_newline, List.append_assoc,
    List.cons_append, placed_newline, placed_upper ha hb hmark, newlineOffset_eq ha hb hmark,
    hlower]

theorem above_ofString (s t : String) :
    (ofString s).above (ofString t) = ofString (s ++ "\n" ++ t) := by
  have hbytes : s.toByteArray ++ "\n".toByteArray ++ t.toByteArray
      = (s ++ "\n" ++ t).toByteArray := by
    rw [String.toByteArray_append, String.toByteArray_append]
  exact congrArg (Input.mk · none) hbytes

/-- **The statements of two texts, one below the other**, if those of the upper are sound. -/
theorem ofTokenList_above (ha : a.source.fault = none) (hb : b.source.fault = none)
    (hmark : b.source.marked = false)
    (hsound : ∀ s ∈ Statement.ofTokenList a.source.body, s.error = none) :
    Statement.ofTokenList (a.above b).source.body
      = Statement.ofTokenList a.source.body
          ++ (Statement.ofTokenList b.source.body).map
              (Statement.moved (1 + a.source.chars.count '\n')) := by
  obtain ⟨newline, bytes, hnewline, hbody⟩ := body_above ha hb hmark
  have hkind : newline.kind = .newline := congrArg Prod.fst hnewline
  rw [hbody, Statement.ofTokenList_append_of_sound hsound,
    Statement.ofTokenList_blank (by rw [hkind]; rfl), Statement.ofTokenList_map_moved]

end Input

/-- A mark that leads a text ends no line. -/
theorem Source.count_newline_dropMark (cs : List Char) :
    (dropMark cs).count '\n' = cs.count '\n' := by
  unfold dropMark
  by_cases hmarked : isMarked cs = true
  · obtain ⟨cs, rfl⟩ : ∃ ds, cs = byteOrderMark :: ds := by
      simpa [isMarked, List.head?_eq_some_iff] using hmarked
    rw [if_pos hmarked, List.tail_cons, List.count_cons_of_ne (by decide)]
  · rw [if_neg hmarked]

/-- **Lines are scanned apart.**  The tokens of a text on the line below another are those of
the upper text without its end, a newline in the place of that end, behind all bytes of the
upper text, and then those of the lower text, its end included, so many lines and bytes further
on as the upper text and the newline take up. -/
theorem lines_scanned_apart (s t : String) (hs : '\x00' ∉ s.toList) (ht : '\x00' ∉ t.toList)
    (hmark : t.toList.head? ≠ some '\uFEFF') :
    ∃ upper e lower, (Input.ofString s).source.scan = ⟨upper ++ [e], none⟩ ∧ e.kind = .finish
      ∧ (Input.ofString t).source.scan = ⟨lower, none⟩
      ∧ (Input.ofString (s ++ "\n" ++ t)).source.scan
        = ⟨upper ++ ⟨.newline, "\n", s.utf8ByteSize, e.pos⟩
            :: lower.map (Token.moved (1 + s.toList.count '\n') (s.utf8ByteSize + 1)), none⟩ := by
  have hupper : (Input.ofString s).source
      = ⟨Source.isMarked s.toList, Source.dropMark s.toList, none⟩ := by
    rw [Input.source_ofString, Source.ofString_eq hs]
  have hlower : (Input.ofString t).source = ⟨false, t.toList, none⟩ := by
    rw [Input.source_ofString, Source.ofString_unmarked (decide_eq_false hmark) ht]
  have hsfault : (Input.ofString s).source.fault = none := by rw [hupper]
  have htfault : (Input.ofString t).source.fault = none := by rw [hlower]
  have htmark : (Input.ofString t).source.marked = false := by rw [hlower]
  have hlines : (Input.ofString s).source.chars.count '\n' = s.toList.count '\n' := by
    rw [hupper]
    exact Source.count_newline_dropMark s.toList
  obtain ⟨hscan, hend⟩ := Source.scan_eq_placed hsfault
  rw [hend, Position.advanceBy_start] at hscan
  refine ⟨_, _, (Input.ofString t).source.scan.tokens, hscan, rfl, ?_, ?_⟩
  · rw [← Source.failure_scan htfault]
  · rw [← Input.above_ofString, Input.scan_above hsfault htfault htmark, hlines]
    rfl

/-- A mark, a comment that nothing but the newline ends, and a text that begins with a blank. -/
theorem lines_scanned_apart_comment :
    let s := "\uFEFFé\n;( "
    let t := " x"
    ('\x00' ∉ s.toList ∧ '\x00' ∉ t.toList ∧ t.toList.head? ≠ some '\uFEFF')
      ∧ (Input.ofString (s ++ "\n" ++ t)).source.scan
        = ⟨[⟨.word, "é", 3, ⟨1, 1⟩⟩, ⟨.newline, "\n", 5, ⟨1, 2⟩⟩, ⟨.comment, ";( ", 6, ⟨2, 1⟩⟩,
            ⟨.newline, "\n", 9, ⟨2, 4⟩⟩, ⟨.separator, " ", 10, ⟨3, 1⟩⟩, ⟨.word, "x", 11, ⟨3, 2⟩⟩,
            ⟨.finish, "", 12, ⟨3, 3⟩⟩], none⟩ := by
  intro s t
  have hs : '\x00' ∉ s.toList := by decide
  have ht : '\x00' ∉ t.toList := by decide
  have hmark : t.toList.head? ≠ some '\uFEFF' := by decide
  have hupper : (Input.ofString s).source.scan
      = ⟨[⟨.word, "é", 3, ⟨1, 1⟩⟩, ⟨.newline, "\n", 5, ⟨1, 2⟩⟩, ⟨.comment, ";( ", 6, ⟨2, 1⟩⟩]
          ++ [⟨.finish, "", 9, ⟨2, 4⟩⟩], none⟩ := by
    rw [Input.source_ofString]
    decide +kernel
  have hlower : (Input.ofString t).source.scan
      = ⟨[⟨.separator, " ", 0, ⟨1, 1⟩⟩, ⟨.word, "x", 1, ⟨1, 2⟩⟩, ⟨.finish, "", 2, ⟨1, 3⟩⟩],
          none⟩ := by
    rw [Input.source_ofString]
    decide +kernel
  obtain ⟨upper, e, lower, hsscan, -, htscan, hscan⟩ := lines_scanned_apart s t hs ht hmark
  rw [hupper, Scan.mk.injEq] at hsscan
  obtain ⟨rfl, hend⟩ := List.append_inj' hsscan.1 rfl
  cases hend
  rw [hlower] at htscan
  cases htscan
  have hbytes : s.utf8ByteSize = 9 := by decide
  have hlines : s.toList.count '\n' = 1 := by decide
  rw [hbytes, hlines] at hscan
  exact ⟨⟨hs, ht, hmark⟩, hscan⟩

/-! ## §4. Contexts apart from their logs. -/

namespace Context

/-- The context with an empty log. -/
def withoutLog (ctx : Context) : Context := { ctx with log := #[] }

variable (ctx : Context)

theorem withoutLog_trace (event : Context → Event) :
    (ctx.trace event).withoutLog = ctx.withoutLog := by
  unfold trace
  split <;> rfl

theorem withoutLog_register (d : Definition) :
    (ctx.register d).withoutLog = (ctx.withoutLog.register d).withoutLog := by
  unfold register
  dsimp only
  rw [show ctx.withoutLog.registry = ctx.registry from rfl]
  split
  · rw [withoutLog_trace, withoutLog_trace]
    rfl
  · rfl

theorem withoutLog_opened (f : Frame) :
    (ctx.opened f).withoutLog = (ctx.withoutLog.opened f).withoutLog := by
  unfold opened
  rw [withoutLog_trace, withoutLog_trace]
  rfl

theorem withoutLog_pop : ctx.pop.withoutLog = ctx.withoutLog.pop.withoutLog := by
  unfold pop
  rw [show ctx.withoutLog.stack = ctx.stack from rfl]
  cases ctx.stack.top? with
  | none => rfl
  | some f =>
    dsimp only
    rw [withoutLog_trace, withoutLog_trace]
    rfl

end Context

/-- The coupling of contexts that differ in their logs at most. -/
def Coupling.apartFromLog : Coupling where
  rel c₁ c₂ := c₁.withoutLog = c₂.withoutLog
  excuses _ := False
  halts _ := True
  misuse := trivial
  lookup_eq := by
    intro c₁ c₂ h name
    show c₁.withoutLog.lookup name = c₂.withoutLog.lookup name
    rw [h]
  resolve_eq := by
    intro c₁ c₂ h name
    show c₁.withoutLog.registry.resolve name = c₂.withoutLog.registry.resolve name
    rw [h]
  depth_eq := by
    intro c₁ c₂ h
    show c₁.withoutLog.depth = c₂.withoutLog.depth
    rw [h]
  output_eq := by
    intro c₁ c₂ h
    show c₁.withoutLog.output = c₂.withoutLog.output
    rw [h]
  trace := by
    intro c₁ c₂ h event
    rw [Context.withoutLog_trace, Context.withoutLog_trace, h]
  write := by
    intro c₁ c₂ h text
    show c₁.withoutLog.write text = c₂.withoutLog.write text
    rw [h]
  define := by
    intro c₁ c₂ h symbol params body
    rw [Context.withoutLog_register, h, ← Context.withoutLog_register]
  excuses_named := @never_named

theorem Coupling.apartFromLog_serves : apartFromLog.Serves .any where
  excuses _ he := he
  halts _ := trivial
  within _ := Registry.within_any _
  register := by
    intro c₁ c₂ h d _
    show (c₁.register d).withoutLog = (c₂.register d).withoutLog
    rw [Context.withoutLog_register, show c₁.withoutLog = c₂.withoutLog from h,
      ← Context.withoutLog_register]
  record h _ _ := h
  frame_eq := by
    intro _ c₁ c₂ h level
    show c₁.withoutLog.frameAt? level = c₂.withoutLog.frameAt? level
    rw [show c₁.withoutLog = c₂.withoutLog from h]
  bind := by
    intro _ c₁ c₂ h level name v
    show c₁.withoutLog.bind level name v = c₂.withoutLog.bind level name v
    rw [show c₁.withoutLog = c₂.withoutLog from h]
  isFull_eq := by
    intro _ c₁ c₂ h
    show c₁.withoutLog.isFull = c₂.withoutLog.isFull
    rw [show c₁.withoutLog = c₂.withoutLog from h]
  opened := by
    intro _ c₁ c₂ h f
    show (c₁.opened f).withoutLog = (c₂.opened f).withoutLog
    rw [Context.withoutLog_opened, show c₁.withoutLog = c₂.withoutLog from h,
      ← Context.withoutLog_opened]
  top_eq := by
    intro _ c₁ c₂ h
    show c₁.withoutLog.frame? = c₂.withoutLog.frame?
    rw [show c₁.withoutLog = c₂.withoutLog from h]
  pop := by
    intro _ c₁ c₂ h
    show c₁.pop.withoutLog = c₂.pop.withoutLog
    rw [Context.withoutLog_pop, show c₁.withoutLog = c₂.withoutLog from h,
      ← Context.withoutLog_pop]

/-- No evaluation sees the log. -/
def Couplings.apartFromLog : Couplings .any Unit :=
  Coupling.apartFromLog_serves.couplings fun {c₁ c₂} h => by
    show c₁.withoutLog.room = c₂.withoutLog.room
    rw [show c₁.withoutLog = c₂.withoutLog from h]

theorem Coupling.Agree.done_of_eq {α : Type} {a b : α} {c₁ c₂ : Context} (hab : a = b)
    (h : c₁.withoutLog = c₂.withoutLog) : apartFromLog.Agree (.done a c₁) (.done b c₂) := by
  subst hab
  exact .done a h

/-- Steps that match end alike, and in the same context apart from the log. -/
theorem Coupling.mapContext_withoutLog {α : Type} {act₁ act₂ : Eval α}
    (h : apartFromLog.Matches act₁ act₂) (ctx : Context) :
    (act₁.run ctx).mapContext Context.withoutLog = (act₂.run ctx).mapContext Context.withoutLog := by
  match act₁.run ctx, act₂.run ctx, h ctx ctx rfl with
  | _, _, .done a hctx => exact congrArg (Outcome.done a) hctx
  | _, _, .failed e hctx => exact congrArg (Outcome.failed e) hctx
  | _, _, .halted why _ hctx => exact congrArg (Outcome.halted why) hctx
  | _, _, .excused _ _ _ he => exact he.elim

/-! ## §5. Running two texts. -/

/-- The result `lines` further down.  An error of the statement itself moves with it; one of
its evaluation names places in the text of the statement only. -/
def StatementResult.moved (lines : Nat) (r : StatementResult) : StatementResult where
  statement := r.statement.moved lines
  outcome :=
    match r.statement.error with
    | some _ => r.outcome.mapError (·.moved lines)
    | none => r.outcome

namespace Statement

open Coupling

theorem eval_moved (lines : Nat) {s : Statement} (h : s.error = none) :
    (s.moved lines).eval = s.eval := by
  unfold eval
  rw [h, show (s.moved lines).error = none by simp [moved, h]]
  rfl

/-- A statement that is in error is reported, and not evaluated. -/
theorem exec_of_error {s : Statement} {e : Error} (h : s.error = some e) :
    s.exec = do
      Eval.modify (·.record (s.report e))
      return ⟨s, .error e⟩ := by
  unfold exec eval
  rw [h]
  rfl

/-- **A statement further down ends as it does where it is.** -/
theorem matches_exec_moved (lines : Nat) (s : Statement) :
    apartFromLog.Matches (StatementResult.moved lines <$> s.exec) (s.moved lines).exec := by
  cases herror : s.error with
  | some e =>
    have hmovedError : (s.moved lines).error = some (e.moved lines) := by
      simp [moved, herror]
    rw [exec_of_error herror, exec_of_error hmovedError]
    have hmoved : StatementResult.moved lines ⟨s, .error e⟩
        = ⟨s.moved lines, .error (e.moved lines)⟩ := by
      simp [StatementResult.moved, herror, Except.mapError]
    intro c₁ c₂ h
    exact .done_of_eq hmoved h
  | none =>
    have hmoved : ∀ r, StatementResult.moved lines ⟨s, r⟩ = ⟨s.moved lines, r⟩ := by
      intro r
      simp only [StatementResult.moved, herror]
    unfold exec
    rw [map_bind, eval_moved lines herror]
    refine matches_bind (matches_attempt (fun _ he => he)
      (Couplings.apartFromLog.matches_statement_eval () s)) fun r => ?_
    intro c₁ c₂ h
    cases r with
    | ok v => exact .done_of_eq (hmoved (.ok v)) h
    -- the two reports name different lines
    | error e => exact .done_of_eq (hmoved (.error e)) h

theorem matches_execAll_moved (lines : Nat) (ss : List Statement) :
    apartFromLog.Matches (List.map (StatementResult.moved lines) <$> execAll ss)
      (execAll (ss.map (moved lines))) := by
  induction ss with
  | nil => exact matches_pure []
  | cons s ss ih =>
    have hcons : List.map (StatementResult.moved lines) <$> execAll (s :: ss) = do
        let r ← StatementResult.moved lines <$> s.exec
        let rs ← List.map (StatementResult.moved lines) <$> execAll ss
        return r :: rs := by
      simp [execAll]
    rw [hcons, List.map_cons, execAll]
    exact matches_bind (matches_exec_moved lines s) fun r =>
      matches_bind ih fun rs => matches_pure (r :: rs)

theorem execAll_append (ss ts : List Statement) :
    execAll (ss ++ ts) = do
      let rs ← execAll ss
      let rs' ← execAll ts
      return rs ++ rs' := by
  induction ss with
  | nil => simp [execAll]
  | cons s ss ih => simp [execAll, ih]

end Statement

/-- **Texts compose.**  Below a text of which all statements are sound, the statements of any
other text that can be cut into tokens and has no mark are what they are alone, but for their
lines, and so are their errors.  Running the two texts together gives the results of the first
and then those of the second, and leaves the context that running them in turn leaves, apart
from the log. -/
theorem texts_compose (a b : Input) (texts : List String) (ha : a.source.split = .ok texts)
    (hb : b.source.scan.failure = none) (hmark : b.source.marked = false) :
    ∃ ss ts, a.statements = .ok ss ∧ b.statements = .ok ts
      ∧ (a.above b).statements
          = .ok (ss ++ ts.map (Statement.moved (1 + a.source.chars.count '\n')))
      ∧ ∀ ctx, ((a.above b).run.run ctx).mapContext Context.withoutLog
          = (Eval.run (do
              let rs ← a.run
              let rs' ← b.run
              return rs ++ rs'.map (StatementResult.moved (1 + a.source.chars.count '\n')))
              ctx).mapContext Context.withoutLog := by
  obtain ⟨hafault, hsound⟩ := Source.sound_of_split ha
  have hbfault := Source.fault_of_scan hb
  have hfault : (a.above b).source.fault = none := by
    rw [Input.source_above hafault hbfault hmark]
  have hstatements := Input.ofTokenList_above hafault hbfault hmark hsound
  refine ⟨_, _, Input.statements_of_fault hafault, Input.statements_of_fault hbfault, ?_, ?_⟩
  · rw [Input.statements_of_fault hfault, hstatements]
  · intro ctx
    rw [Input.run_of_fault hfault, hstatements, Statement.execAll_append,
      Input.run_of_fault hafault, Input.run_of_fault hbfault]
    refine (Coupling.mapContext_withoutLog ?_ ctx).symm
    refine Coupling.matches_bind (Couplings.apartFromLog.matches_execAll () _) fun rs => ?_
    -- moving the results of the lower text is moving its statements
    have hmap := Coupling.matches_bind
      (Statement.matches_execAll_moved (1 + a.source.chars.count '\n')
        (Statement.ofTokenList b.source.body)) fun rs' => Coupling.matches_pure (rs ++ rs')
    rwa [bind_map_left] at hmap

/-- A comment that ends with a parenthesis, above an expression that is never closed. -/
theorem texts_compose_unclosed :
    let a := Input.ofString "(print 1) ; ("
    let b := Input.ofString "(+ 1 2\n(print 3)"
    (a.above b).statements
        = .ok [⟨"(print 1)", ⟨1, 1⟩, none⟩,
            ⟨"(+ 1 2", ⟨2, 1⟩,
              some (.located ⟨2, 1⟩ (.because .unexpectedEnd) "unclosed (")⟩,
            ⟨"(print 3)", ⟨3, 1⟩, none⟩]
      ∧ ∀ ctx, ((a.above b).run.run ctx).mapContext Context.withoutLog
          = (Eval.run (do
              let rs ← a.run
              let rs' ← b.run
              return rs ++ rs'.map (StatementResult.moved 1)) ctx).mapContext
                Context.withoutLog := by
  intro a b
  have hsplit : a.source.split = .ok ["(print 1)"] := by decide +kernel
  have hscan : b.source.scan.failure = none := by decide +kernel
  have hmark : b.source.marked = false := by decide +kernel
  have hnewlines : a.source.chars.count '\n' = 0 := by decide +kernel
  have ha : a.statements = .ok [⟨"(print 1)", ⟨1, 1⟩, none⟩] := by decide +kernel
  have hb : b.statements
      = .ok [⟨"(+ 1 2", ⟨1, 1⟩, some (.located ⟨1, 1⟩ (.because .unexpectedEnd) "unclosed (")⟩,
          ⟨"(print 3)", ⟨2, 1⟩, none⟩] := by
    decide +kernel
  obtain ⟨ss, ts, hss, hts, hjoint, hrun⟩ := texts_compose a b _ hsplit hscan hmark
  rw [ha] at hss
  rw [hb] at hts
  cases hss
  cases hts
  rw [hnewlines] at hjoint hrun
  exact ⟨hjoint, hrun⟩

end IntLisp
