/-
  IntLisp.Proofs.Account
  ──────────────────────
  **EVERY FAILURE IS LOGGED ONCE, AND THE STATUS TELLS OF IT.**

  The command runs files one after the other in one context.  A file that
  cannot be read, one that cannot be cut into tokens, a statement that is not
  balanced and one whose evaluation fails are reported at different places.
  Without tracing nothing else is logged, so the log is the list of these
  failures in the order in which they occur, and the status is one if there
  is any.

  An evaluation ends under a limit.  Without a limit it may run out of room,
  which is no failure of the program, and then there is no account.
-/
import IntLisp.Proofs.Termination
import IntLisp.Shell.Plan

namespace IntLisp

/-! ## §1. Quiet contexts. -/

/-- A context under the limit `l`, if there is one, that is not traced and in which only the core
and functions of the language are in force. -/
structure Context.IsSilent (l : Option Nat) (ctx : Context) : Prop where
  untraced : ctx.tracer.isEnabled = false
  limit_eq : ctx.limit = l
  plain : ctx.registry.IsPlain

namespace Context.IsSilent

variable {l : Option Nat} {ctx : Context}

/-- Nothing is traced. -/
theorem trace_eq (h : ctx.IsSilent l) (event : Context → Event) : ctx.trace event = ctx := by
  unfold Context.trace
  rw [h.untraced]
  rfl

theorem withStack (h : ctx.IsSilent l) (stack : Stack) : { ctx with stack := stack }.IsSilent l :=
  ⟨h.untraced, h.limit_eq, h.plain⟩

theorem opened_eq (h : ctx.IsSilent l) (f : Frame) :
    ctx.opened f = { ctx with stack := ctx.stack.push f } :=
  (h.withStack (ctx.stack.push f)).trace_eq _

theorem pop_eq (h : ctx.IsSilent l) : ctx.pop = { ctx with stack := ctx.stack.pop } := by
  unfold Context.pop
  split
  · next htop =>
    have hframes : ctx.stack.frames = [] := List.head?_eq_none_iff.1 htop
    have hstack : ctx.stack.pop = ctx.stack := Stack.ext (by rw [Stack.frames_pop, hframes]; rfl)
    rw [hstack]
  · exact (h.withStack ctx.stack.pop).trace_eq _

theorem registered (h : ctx.IsSilent l) {d : Definition} (hd : d.IsPlain) :
    { ctx with registry := ctx.registry.register d }.IsSilent l :=
  ⟨h.untraced, h.limit_eq, h.plain.register hd⟩

theorem register_eq (h : ctx.IsSilent l) {d : Definition} (hd : d.IsPlain) :
    ctx.register d = { ctx with registry := ctx.registry.register d } := by
  unfold Context.register
  dsimp only
  split
  · exact (h.registered hd).trace_eq _
  · rfl

end Context.IsSilent

/-- A silent context whose stack binds values of the language only. -/
structure Context.IsQuiet (l : Option Nat) (ctx : Context) : Prop extends ctx.IsSilent l where
  stack : ctx.stack.Holds (·.isProper = true)

theorem Context.IsQuiet.record {l : Option Nat} {ctx : Context} (h : ctx.IsQuiet l)
    (entry : Entry) : (ctx.record entry).IsQuiet l :=
  ⟨⟨h.untraced, h.limit_eq, h.plain⟩, h.stack⟩

theorem Context.IsQuiet.write {l : Option Nat} {ctx : Context} (h : ctx.IsQuiet l)
    (text : String) : (ctx.write text).IsQuiet l :=
  ⟨⟨h.untraced, h.limit_eq, h.plain⟩, h.stack⟩

/-- All that happened fits and nothing of it was logged, and the context is silent. -/
def Watch.silent (l : Option Nat) (log : Array Entry) : Watch Standard.plain where
  holds past ctx := (∀ deed ∈ past, deed.Fits) ∧ ctx.IsSilent l ∧ ctx.log = log
  found h _ _ hfound := h.2.1.plain _ (Registry.mem_of_resolve hfound)
  trace h event := by rwa [h.2.1.trace_eq]
  write h _ := ⟨h.1, ⟨h.2.1.untraced, h.2.1.limit_eq, h.2.1.plain⟩, h.2.2⟩
  bind h _ _ _ := ⟨h.1, h.2.1.withStack _, h.2.2⟩
  opened h _ f := by
    rw [h.2.1.opened_eq]
    exact ⟨h.1, h.2.1.withStack _, h.2.2⟩
  pop h := by
    rw [h.2.1.pop_eq]
    exact ⟨h.1, h.2.1.withStack _, h.2.2⟩
  visit h hn := ⟨Deed.forall_concat h.1 (Standard.plain_keeps.visit hn), h.2⟩
  dispatch h hd haccepts hoperands :=
    ⟨Deed.forall_concat h.1 (Standard.plain_keeps.dispatch hd haccepts hoperands), h.2⟩
  invoke h _ hform := ⟨Deed.forall_concat h.1 hform, h.2⟩
  apply h hd haccepts hargs :=
    ⟨Deed.forall_concat h.1 (Standard.plain_keeps.apply hd haccepts hargs), h.2⟩
  define h hd := by
    rw [h.2.1.register_eq hd]
    exact ⟨Deed.forall_concat h.1 trivial, h.2.1.registered hd, h.2.2⟩
  register h hd := by
    rw [h.2.1.register_eq hd]
    exact ⟨Deed.forall_concat h.1 trivial, h.2.1.registered hd, h.2.2⟩

/-! ## §2. Statements in a quiet context. -/

/-- In a quiet context the evaluation of a statement logs nothing, leaves the context quiet,
and does not halt, unless it runs out of room where there is no limit. -/
theorem Statement.eval_quiet (s : Statement) {l : Option Nat} {ctx : Context}
    (h : ctx.IsQuiet l) :
    (s.eval.run ctx).context.IsQuiet l ∧ (s.eval.run ctx).context.log = ctx.log
      ∧ ∀ why ctx', s.eval.run ctx = .halted why ctx' → l = none ∧ why = .noRoom := by
  obtain ⟨⟨⟨hfits, hsilent, hlog⟩, hstack⟩, -, hblames⟩ :=
    Watch.tells_statement (W := Watch.silent l ctx.log) s (fun _ _ => trivial) [] ctx
      ⟨⟨List.forall_mem_nil _, h.toIsSilent, rfl⟩, h.stack⟩
  refine ⟨⟨hsilent, hstack⟩, hlog, fun why ctx' hrun => ?_⟩
  cases why with
  | misuse =>
    obtain ⟨deed, hdeed, hbad⟩ := hblames ctx' hrun
    exact absurd (hfits deed hdeed) hbad
  | noRoom =>
    refine ⟨?_, rfl⟩
    cases hl : l with
    | none => rfl
    | some m =>
      -- a statement that halts has been read, and the evaluation of its node halts
      have hends := fun n : Node => n.eval_answers (h.limit_eq.trans hl) h.plain h.stack
      unfold Statement.eval at hrun
      cases hs : s.error with
      | some e => rw [hs] at hrun; cases hrun
      | none =>
        rw [hs] at hrun
        simp only [Eval.trace, Eval.run_bind, Eval.run_modify, h.trace_eq] at hrun
        unfold Source.eval at hrun
        cases hparse : (Source.ofString s.text).parseStatement with
        | error e => rw [hparse] at hrun; cases hrun
        | ok n =>
          rw [hparse] at hrun
          rcases hends n with ⟨v, c, hn⟩ | ⟨e, c, hn⟩
          · simp [Eval.ofExcept, hn] at hrun
          · simp [Eval.ofExcept, hn] at hrun

/-- Something is done with each of a list, in the context that the one before it left. -/
inductive InTurn {α β : Type} (does : Context → α → β → Context → Prop) :
    Context → List α → List β → Context → Prop where
  | nil {ctx : Context} : InTurn does ctx [] [] ctx
  | cons {ctx ctx' ctx'' : Context} {a : α} {b : β} {as : List α} {bs : List β}
      (h : does ctx a b ctx') (hrest : InTurn does ctx' as bs ctx'') :
      InTurn does ctx (a :: as) (b :: bs) ctx''

namespace Statement

/-- What becomes of a statement: it has the value of its evaluation, or else the error of it,
which is reported. -/
inductive Gives (ctx : Context) (s : Statement) : StatementResult → Context → Prop where
  | value {v : Value} {ctx' : Context} (h : s.eval.run ctx = .done v ctx') :
      Gives ctx s ⟨s, .ok v⟩ ctx'
  | error {e : Error} {ctx' : Context} (h : s.eval.run ctx = .failed e ctx') :
      Gives ctx s ⟨s, .error e⟩ (ctx'.record (s.report e))

end Statement

/-- The entry that reports a statement, if it failed. -/
def StatementResult.entry? (r : StatementResult) : Option Entry :=
  match r.outcome with
  | .ok _ => none
  | .error e => some (r.statement.report e)

theorem StatementResult.isSome_entry? (r : StatementResult) : r.entry?.isSome = r.isFailure := by
  unfold entry? isFailure
  cases r.outcome <;> rfl

namespace Eval

variable {α β : Type}

/-- The step ends with a value, in a quiet context again and as `Q` says; or it runs out of
room where there is no limit. -/
inductive Finishes (l : Option Nat) (Q : α → Context → Prop) (act : Eval α) (ctx : Context) :
    Prop where
  | done {a : α} {ctx' : Context} (hrun : act.run ctx = .done a ctx') (hquiet : ctx'.IsQuiet l)
      (h : Q a ctx')
  | noRoom {ctx' : Context} (hl : l = none) (hrun : act.run ctx = .halted .noRoom ctx')

variable {l : Option Nat} {Q : α → Context → Prop} {R : β → Context → Prop} {ctx : Context}

theorem finishes_pure {a : α} (hquiet : ctx.IsQuiet l) (h : Q a ctx) :
    (pure a : Eval α).Finishes l Q ctx :=
  .done rfl hquiet h

theorem finishes_bind {act : Eval α} {next : α → Eval β} (hact : act.Finishes l Q ctx)
    (hnext : ∀ a ctx', ctx'.IsQuiet l → Q a ctx' → (next a).Finishes l R ctx') :
    (act >>= next).Finishes l R ctx := by
  cases hact with
  | @done a ctx' hrun hquiet h =>
    have hrest : (act >>= next).run ctx = (next a).run ctx' := by rw [run_bind, hrun]
    cases hnext a ctx' hquiet h with
    | done hrun' hquiet' h' => exact .done (hrest.trans hrun') hquiet' h'
    | noRoom hl hrun' => exact .noRoom hl (hrest.trans hrun')
  | noRoom hl hrun => exact .noRoom hl (by rw [run_bind, hrun])

end Eval

namespace Statement

variable {l : Option Nat} {ctx : Context}

theorem run_exec (s : Statement) (ctx : Context) :
    s.exec.run ctx =
      match s.eval.run ctx with
      | .done v ctx' => .done ⟨s, .ok v⟩ ctx'
      | .failed e ctx' => .done ⟨s, .error e⟩ (ctx'.record (s.report e))
      | .halted why ctx' => .halted why ctx' := by
  unfold exec Eval.attempt
  rw [Eval.run_bind]
  dsimp only
  cases s.eval.run ctx <;> rfl

theorem finishes_exec (s : Statement) (h : ctx.IsQuiet l) :
    s.exec.Finishes l (fun r ctx' => s.Gives ctx r ctx'
      ∧ ctx'.log.toList = ctx.log.toList ++ r.entry?.toList) ctx := by
  obtain ⟨hquiet, hlog, hhalts⟩ := s.eval_quiet h
  have hexec := s.run_exec ctx
  cases hrun : s.eval.run ctx with
  | done v ctx' =>
    rw [hrun] at hquiet hlog hexec
    exact .done hexec hquiet ⟨.value hrun, by simp [StatementResult.entry?, ← hlog]; rfl⟩
  | failed e ctx' =>
    rw [hrun] at hquiet hlog hexec
    refine .done hexec (hquiet.record (s.report e)) ⟨.error hrun, ?_⟩
    rw [← hlog]
    exact Array.toList_push
  | halted why ctx' =>
    obtain ⟨hl, rfl⟩ := hhalts why ctx' hrun
    rw [hrun] at hexec
    exact .noRoom hl hexec

theorem finishes_execAll (ss : List Statement) (h : ctx.IsQuiet l) :
    (execAll ss).Finishes l (fun rs ctx' => InTurn Gives ctx ss rs ctx'
      ∧ ctx'.log.toList = ctx.log.toList ++ rs.filterMap StatementResult.entry?) ctx := by
  induction ss generalizing ctx with
  | nil => exact Eval.finishes_pure h ⟨.nil, by simp⟩
  | cons s ss ih =>
    refine Eval.finishes_bind (finishes_exec s h) fun r ctx' hquiet hr => ?_
    refine Eval.finishes_bind (ih hquiet) fun rs ctx'' hquiet' hrs => ?_
    refine Eval.finishes_pure hquiet' ⟨.cons hr.1 hrs.1, ?_⟩
    rw [hrs.2, hr.2, List.filterMap_cons, List.append_assoc]
    cases r.entry? <;> rfl

end Statement

/-! ## §3. Files. -/

namespace Shell

/-- What becomes of a file. -/
inductive Fate where
  /-- It could not be read. -/
  | unreadable (e : Error)
  /-- What was read could not be cut into tokens. -/
  | uncut (e : Error)
  /-- Its statements were run. -/
  | run (results : List StatementResult)

namespace Fate

/-- The results of the statements that were run. -/
def results : Fate → List StatementResult
  | unreadable _ | uncut _ => []
  | run results => results

/-- The entries that report what failed, in order. -/
def entries : Fate → List Entry
  | unreadable e | uncut e => [.unreadable e]
  | run results => results.filterMap StatementResult.entry?

/-- Whether the file could not be read. -/
def isUnreadable : Fate → Bool
  | unreadable _ => true
  | _ => false

/-- Whether the file could not be cut into tokens. -/
def isUncut : Fate → Bool
  | uncut _ => true
  | _ => false

/-- There is one entry for each file that could not be read, each that could not be cut into
tokens, and each statement that failed. -/
theorem length_entries (fates : List Fate) :
    (fates.flatMap entries).length
      = fates.countP isUnreadable + fates.countP isUncut
        + (fates.flatMap results).countP StatementResult.isFailure := by
  induction fates with
  | nil => rfl
  | cons fate fates ih =>
    rw [List.flatMap_cons, List.flatMap_cons, List.length_append, List.countP_append, ih,
      List.countP_cons, List.countP_cons]
    cases fate with
    | unreadable e => simp [entries, results, isUnreadable, isUncut]; omega
    | uncut e => simp [entries, results, isUnreadable, isUncut]; omega
    | run rs =>
      have hentry : (fun r : StatementResult => r.entry?.isSome) = StatementResult.isFailure :=
        funext StatementResult.isSome_entry?
      simp [entries, results, isUnreadable, isUncut, List.length_filterMap_eq_countP, hentry]
      omega

end Fate

/-- The context once the values of statements are shown, if they are. -/
def shown (verbose : Bool) (results : List StatementResult) (ctx : Context) : Context :=
  if verbose then ctx.write (String.join (results.filterMap valueLine)) else ctx

/-- A file is handled: what keeps it from being run is reported, or else each of its statements
is evaluated in turn, whatever became of the ones before. -/
inductive Handles (verbose : Bool) (ctx : Context) (input : Input) : Fate → Context → Prop where
  | unreadable {e : Error} (h : input.contents = .error e) :
      Handles verbose ctx input (.unreadable e) (ctx.record (.unreadable e))
  | uncut {src : Source} {e : Error} (hcontents : input.contents = .ok src)
      (h : src.statements = .error e) :
      Handles verbose ctx input (.uncut e) (ctx.record (.unreadable e))
  | run {src : Source} {ss : List Statement} {rs : List StatementResult} {ctx' : Context}
      (hcontents : input.contents = .ok src) (hss : src.statements = .ok ss)
      (h : InTurn Statement.Gives ctx ss rs ctx') :
      Handles verbose ctx input (.run rs) (shown verbose rs ctx')

variable {l : Option Nat} {ctx : Context}

theorem isQuiet_shown {verbose : Bool} {rs : List StatementResult} (h : ctx.IsQuiet l) :
    (shown verbose rs ctx).IsQuiet l := by
  unfold shown
  split
  · exact h.write _
  · exact h

theorem log_shown (verbose : Bool) (rs : List StatementResult) (ctx : Context) :
    (shown verbose rs ctx).log = ctx.log := by
  unfold shown
  split <;> rfl

theorem run_showRun_done (verbose : Bool) {act : Eval (List StatementResult)}
    {rs : List StatementResult} {ctx' : Context} (h : act.run ctx = .done rs ctx') :
    (showRun verbose act).run ctx = .done (rs.all (!·.isFailure)) (shown verbose rs ctx') := by
  unfold showRun Eval.attempt shown
  rw [Eval.run_bind]
  dsimp only
  rw [h]
  cases verbose <;> rfl

theorem run_showRun_failed (verbose : Bool) {act : Eval (List StatementResult)} {e : Error}
    {ctx' : Context} (h : act.run ctx = .failed e ctx') :
    (showRun verbose act).run ctx = .done false ctx' := by
  unfold showRun Eval.attempt
  rw [Eval.run_bind]
  dsimp only
  rw [h]
  rfl

theorem run_showRun_halted (verbose : Bool) {act : Eval (List StatementResult)} {why : Halt}
    {ctx' : Context} (h : act.run ctx = .halted why ctx') :
    (showRun verbose act).run ctx = .halted why ctx' := by
  unfold showRun Eval.attempt
  rw [Eval.run_bind]
  dsimp only
  rw [h]

/-- All went well if there is nothing to report. -/
theorem all_eq_isEmpty_entries (rs : List StatementResult) :
    rs.all (!·.isFailure) = (Fate.run rs).entries.isEmpty := by
  induction rs with
  | nil => rfl
  | cons r rs ih =>
    rw [List.all_cons, ih]
    unfold Fate.entries StatementResult.isFailure
    dsimp only
    rw [List.filterMap_cons, StatementResult.entry?]
    cases r.outcome <;> simp

/-- How a file was handled, what was logged of it, and whether all went well. -/
def Settles (verbose : Bool) (ctx : Context) (input : Input) (ok : Bool) (ctx' : Context) : Prop :=
  ∃ fate, Handles verbose ctx input fate ctx'
    ∧ ctx'.log.toList = ctx.log.toList ++ fate.entries ∧ ok = fate.entries.isEmpty

theorem finishes_showRun (verbose : Bool) (input : Input) (h : ctx.IsQuiet l) :
    (showRun verbose input.run).Finishes l (Settles verbose ctx input) ctx := by
  have hreport : ∀ e : Error, (ctx.record (.unreadable e)).log.toList
      = ctx.log.toList ++ [.unreadable e] := fun e => Array.toList_push
  cases hcontents : input.contents with
  | error e =>
    have hrun : input.run.run ctx = .failed e (ctx.record (.unreadable e)) := by
      rw [Input.run, hcontents]
      rfl
    exact .done (run_showRun_failed verbose hrun) (h.record _)
      ⟨.unreadable e, .unreadable hcontents, hreport e, rfl⟩
  | ok src =>
    cases hstatements : src.statements with
    | error e =>
      have hrun : input.run.run ctx = .failed e (ctx.record (.unreadable e)) := by
        simp only [Input.run, hcontents, Source.run, hstatements]
        rfl
      exact .done (run_showRun_failed verbose hrun) (h.record _)
        ⟨.uncut e, .uncut hcontents hstatements, hreport e, rfl⟩
    | ok ss =>
      have hrun : input.run = Statement.execAll ss := by
        simp only [Input.run, hcontents, Source.run, hstatements]
      cases Statement.finishes_execAll ss h with
      | @done rs ctx' hexec hquiet hrs =>
        refine .done (run_showRun_done verbose (hrun ▸ hexec)) (isQuiet_shown hquiet) ?_
        refine ⟨.run rs, .run hcontents hstatements hrs.1, ?_, all_eq_isEmpty_entries rs⟩
        rw [log_shown]
        exact hrs.2
      | noRoom hl hexec => exact .noRoom hl (run_showRun_halted verbose (hrun ▸ hexec))

theorem finishes_runInputs (verbose : Bool) (inputs : List Input) (h : ctx.IsQuiet l) :
    (runInputs verbose inputs).Finishes l (fun ok ctx' =>
      ∃ fates, InTurn (Handles verbose) ctx inputs fates ctx'
        ∧ ctx'.log.toList = ctx.log.toList ++ fates.flatMap Fate.entries
        ∧ ok = (fates.flatMap Fate.entries).isEmpty) ctx := by
  induction inputs generalizing ctx with
  | nil => exact Eval.finishes_pure h ⟨[], .nil, by simp, rfl⟩
  | cons input inputs ih =>
    refine Eval.finishes_bind (finishes_showRun verbose input h) fun ok ctx' hquiet hfirst => ?_
    refine Eval.finishes_bind (ih hquiet) fun oks ctx'' hquiet' hothers => ?_
    obtain ⟨fate, hhandles, hlog, rfl⟩ := hfirst
    obtain ⟨fates, hturn, hlogs, rfl⟩ := hothers
    refine Eval.finishes_pure hquiet' ⟨fate :: fates, .cons hhandles hturn, ?_, ?_⟩
    · rw [hlogs, hlog, List.flatMap_cons, List.append_assoc]
    · rw [List.flatMap_cons]
      cases fate.entries <;> rfl

/-! ## §4. The command. -/

/-- What became of the inputs of the command: `fates` tells of each, and `ctx'` is the context
in the end. -/
structure Accounts (verbose : Bool) (ctx : Context) (inputs : List Input) (fates : List Fate)
    (status : Nat) (ctx' : Context) : Prop where
  /-- Each was handled in its turn, in the context that the ones before it left. -/
  handled : InTurn (Handles verbose) ctx inputs fates ctx'
  logged : ctx'.log.toList = fates.flatMap Fate.entries
  counted : ctx'.log.size = fates.countP Fate.isUnreadable + fates.countP Fate.isUncut
    + (fates.flatMap Fate.results).countP StatementResult.isFailure
  valued : ∀ r ∈ fates.flatMap Fate.results,
    (∃ v, r.outcome = .ok v) ↔ ¬ ∃ e, r.outcome = .error e
  status_eq_one : status = 1 ↔ 0 < ctx'.log.size
  status_eq_zero : status = 0 ↔ ctx'.log.size = 0

theorem accounts_of_log {verbose : Bool} {ctx ctx' : Context} {inputs : List Input}
    {fates : List Fate} (h : InTurn (Handles verbose) ctx inputs fates ctx')
    (hlog : ctx'.log.toList = fates.flatMap Fate.entries) :
    Accounts verbose ctx inputs fates (statusOf (fates.flatMap Fate.entries).isEmpty) ctx' := by
  have hsize : (fates.flatMap Fate.entries).length = ctx'.log.size := by
    rw [← hlog, Array.length_toList]
  refine ⟨h, hlog, hsize.symm.trans (Fate.length_entries fates), fun r _ => ?_, ?_, ?_⟩
  · cases r.outcome <;> simp
  · rw [← hsize]
    cases fates.flatMap Fate.entries <;> simp [statusOf]
  · rw [← hsize]
    cases fates.flatMap Fate.entries <;> simp [statusOf]

/-- **Every failure is logged once, and the status tells whether there was one.**  The command
without tracing handles all files in turn in one context, whatever their contents are; it ends
otherwise only if there is no limit to the frames and no room for a further one. -/
theorem run_accounts (s : Surroundings) {args : List String} {config : Config}
    {paths : List String} (hplan : Plan.ofArgs args = .runFiles config paths)
    (hdebug : config.debug = false) :
    let inputs := paths.map fun path => s.files (.ofString path)
    let ctx := (Plan.runFiles config paths).context
    (∃ fates status ctx', Accounts config.verbose ctx inputs fates status ctx'
        ∧ run s args = ⟨status, ctx'.printed, logText ctx', s.history⟩)
      ∨ (config.maxDepth < 0
        ∧ ∃ ctx', ((Plan.runFiles config paths).perform s).run ctx = .halted .noRoom ctx') := by
  intro inputs ctx
  have hquiet : ctx.IsQuiet config.options.limit := by
    refine ⟨⟨?_, rfl, Registry.isPlain_core⟩, Stack.Holds.empty⟩
    show config.options.tracer.isEnabled = false
    simp [Options.tracer, Config.options, hdebug, Tracer.isEnabled]
  cases finishes_runInputs config.verbose inputs hquiet with
  | @done ok ctx' hrun _ h =>
    obtain ⟨fates, hturn, hlog, rfl⟩ := h
    refine .inl ⟨fates, _, ctx', accounts_of_log hturn hlog, ?_⟩
    unfold Shell.run
    dsimp only
    rw [hplan, Plan.perform, Eval.run_bind, hrun]
    rfl
  | @noRoom ctx' hl hrun =>
    refine .inr ⟨?_, ctx', ?_⟩
    · unfold Options.limit at hl
      split at hl
      · cases hl
      · split at hl
        · assumption
        · cases hl
    · rw [Plan.perform, Eval.run_bind, hrun]

/-- Three files: one is not there, one cannot be cut into tokens, and one has a statement that
fails before one that does not. -/
theorem run_accounts_mixed :
    let files (path : Path) : Input :=
      if path = .ofString "f" then .ofString "(g) (print 1)"
      else if path = .ofString "b" then ⟨⟨#[0x28, 0xFF]⟩, none⟩
      else ⟨.empty, some "no such file or directory"⟩
    let s : Surroundings := ⟨false, ⟨.empty, none⟩, files, none⟩
    let args := ["-v", "a", "b", "f"]
    let config : Config := { Config.default with verbose := true }
    Plan.ofArgs args = .runFiles config ["a", "b", "f"] ∧ config.debug = false
      ∧ ∃ fates status ctx',
        Accounts true (Plan.runFiles config ["a", "b", "f"]).context
          [files (.ofString "a"), files (.ofString "b"), files (.ofString "f")] fates status ctx'
        ∧ run s args = ⟨status, ctx'.printed, logText ctx', none⟩ := by
  intro files s args config
  have hplan : Plan.ofArgs args = .runFiles config ["a", "b", "f"] := by decide
  refine ⟨hplan, rfl, ?_⟩
  rcases run_accounts s hplan rfl with h | ⟨hdepth, -⟩
  · exact h
  · exact absurd hdepth (by decide)

end Shell

end IntLisp
