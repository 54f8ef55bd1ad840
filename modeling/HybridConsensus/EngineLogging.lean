import HybridConsensus.HybridEngine
import Mathlib.Data.List.Destutter

/-!
# The engine log over a sequential run of calls

`selectEngine` writes `Consensus engine transition occurred` when it selects on the
transition block and the transition has not been logged yet, and `Using consensus
engine` when the engine differs from the last one logged or more than ten seconds
have passed since that line. Only `Prepare` off the transition block, `Finalize`,
`FinalizeAndAssemble`, `Seal`, `SealHash` and `CalcDifficulty` select; `selectionOf`
is the number each of them passes.

A run here is sequential: each call returns before the next starts, as `serve` threads
the logging state from one call to the next. Calls that overlap are the subject of
`ConcurrentSelection`, where the transition line can be written once per overlapping
call; its serial schedules are exactly these runs.

Over every sequential run, from any logging state and at any clock readings: the
transition line is written at most once, and from a fresh engine exactly when some call
selects on the transition block; two engine lines in a row that name the same engine are
more than ten seconds apart; and the engine lines with repeats collapsed are the engines
in use with repeats collapsed, so every change of engine is logged. The other methods'
log lines neither read nor change any state and are not modelled.
-/

namespace HybridConsensus.EngineLogging

open EngineInterface EngineSelection Delegation HybridEngine

variable {χ : Host} {ε : Type} (h : Hybrid ε)

/-- The number a call's handler passes to `selectEngine`, if it selects. -/
def selectionOf : Call χ → Option UInt64
  | .prepare _ header =>
    if header.number.toUInt64 = h.transitionBlock then none else some header.number.toUInt64
  | .finalize _ header _ _ => some header.number.toUInt64
  | .finalizeAndAssemble _ header _ _ _ => some header.number.toUInt64
  | .seal _ block _ _ => some block.header.number.toUInt64
  | .sealHash header => some header.number.toUInt64
  | .calcDifficulty _ _ parent => some (parent.number.toUInt64 + 1)
  | _ => none

/-- The lines a call writes through `selectEngine`. -/
def handleLog (now : Time) (c : Call χ) (d : Diag) : List LogLine :=
  match selectionOf h c with
  | some b => (h.selectEngineRun now b d).2.1
  | none => []

/-- The lines a run writes through `selectEngine`, in order. -/
def serveLog : Diag → List (Time × Call χ) → List LogLine
  | _, [] => []
  | d, (now, c) :: rest => handleLog h now c d ++ serveLog (handle h now c d).1 rest

/-- The block numbers of a log's transition lines. -/
def transitionLines (log : List LogLine) : List UInt64 :=
  log.filterMap fun | .transition b => some b | _ => none

/-- A log's engine lines: the engine named and the clock reading. -/
def engineLines (log : List LogLine) : List (String × Time) :=
  log.filterMap fun | .engineUse _ engine time => some (engine, time) | _ => none

/-- The engine in use at each selection of a run, by name. -/
def selectedEngines (trace : List (Time × Call χ)) : List String :=
  trace.filterMap fun p => (selectionOf h p.2).map fun b => engineName (h.shouldUsePoA b)

/-- The last engine line as the logging fields record it. -/
def lastEngineLine (d : Diag) : String × Time := (d.lastLoggedEngine, d.lastLogTime)

/-- The rate limit between two engine lines in a row: the same engine only after more than
ten seconds. -/
def Spaced (a b : String × Time) : Prop := a.1 = b.1 → b.2 - a.2 > logInterval

/-! ### One call -/

/-- The logging state after one call: `selectEngine`'s on a selecting call, else unchanged. -/
theorem handle_fst (now : Time) (c : Call χ) (d : Diag) :
    (handle h now c d).1 = match selectionOf h c with
      | some b => (h.selectEngine now b d).1
      | none => d := by
  cases c <;> try rfl
  case prepare chain header =>
    by_cases hb : header.number.toUInt64 = h.transitionBlock <;>
      simp [handle, prepare, selectionOf, selectAndForward, Hybrid.selectEngineFromHeader, hb]

@[simp] theorem transitionLines_append (l m : List LogLine) :
    transitionLines (l ++ m) = transitionLines l ++ transitionLines m :=
  List.filterMap_append _ _ _

@[simp] theorem engineLines_append (l m : List LogLine) :
    engineLines (l ++ m) = engineLines l ++ engineLines m :=
  List.filterMap_append _ _ _

/-- `selectEngine` in closed form: the transition flag is set at the transition block, the
engine fields are refreshed exactly when an engine line is written. -/
theorem selectEngineRun_eq (now : Time) (b : UInt64) (d : Diag) :
    h.selectEngineRun now b d =
      let e := engineName (h.shouldUsePoA b)
      let g := logsEngineUse now e d
      (⟨d.transitionLogged || b == h.transitionBlock, if g then e else d.lastLoggedEngine,
          if g then now else d.lastLogTime⟩,
        (if h.atBoundary b then [.boundary b (h.shouldUsePoA b)] else []) ++
          (if h.logsTransition b d then [.transition b] else []) ++
          (if g then [.engineUse b e now] else []),
        if h.shouldUsePoA b then h.poaEngine else h.posEngine) := by
  obtain ⟨logged, engine, time⟩ := d
  have hg (t : Bool) : logsEngineUse now (engineName (h.shouldUsePoA b)) ⟨t, engine, time⟩ =
      (engine != engineName (h.shouldUsePoA b) || decide (now - time > logInterval)) := rfl
  by_cases hb : (b == h.transitionBlock) = true <;> cases logged <;>
    simp [Hybrid.selectEngineRun, Hybrid.logsTransition, hb, hg] <;> split_ifs <;> rfl

theorem selectEngine_transitionLogged (now : Time) (b : UInt64) (d : Diag) :
    (h.selectEngine now b d).1.transitionLogged =
      (d.transitionLogged || b == h.transitionBlock) := by
  rw [Hybrid.selectEngine, selectEngineRun_eq]

theorem transitionLines_selectEngineRun (now : Time) (b : UInt64) (d : Diag) :
    transitionLines (h.selectEngineRun now b d).2.1 =
      if h.logsTransition b d then [b] else [] := by
  simp only [selectEngineRun_eq, transitionLines_append]
  split_ifs <;> rfl

theorem engineLines_selectEngineRun (now : Time) (b : UInt64) (d : Diag) :
    engineLines (h.selectEngineRun now b d).2.1 =
      if logsEngineUse now (engineName (h.shouldUsePoA b)) d
      then [(engineName (h.shouldUsePoA b), now)] else [] := by
  simp only [selectEngineRun_eq, engineLines_append]
  split_ifs <;> rfl

theorem lastEngineLine_selectEngine (now : Time) (b : UInt64) (d : Diag) :
    lastEngineLine (h.selectEngine now b d).1 =
      if logsEngineUse now (engineName (h.shouldUsePoA b)) d
      then (engineName (h.shouldUsePoA b), now) else lastEngineLine d := by
  simp only [Hybrid.selectEngine, selectEngineRun_eq, lastEngineLine]
  split_ifs <;> rfl

/-- A selection that writes no engine line names the engine already logged. -/
theorem lastLoggedEngine_of_not_logsEngineUse {now : Time} {e : String} {d : Diag}
    (hg : logsEngineUse now e d = false) : d.lastLoggedEngine = e := by
  simp only [logsEngineUse, Bool.or_eq_false_iff, bne_eq_false_iff_eq] at hg
  exact hg.1

/-- After a selection the last engine logged is the engine selected. -/
theorem lastLoggedEngine_selectEngine (now : Time) (b : UInt64) (d : Diag) :
    (h.selectEngine now b d).1.lastLoggedEngine = engineName (h.shouldUsePoA b) := by
  have hl := congrArg Prod.fst (lastEngineLine_selectEngine h now b d)
  cases hg : logsEngineUse now (engineName (h.shouldUsePoA b)) d
  · simpa [hg, lastEngineLine, lastLoggedEngine_of_not_logsEngineUse hg] using hl
  · simpa [hg, lastEngineLine] using hl

/-- An engine line keeps the rate limit with the one before it. -/
theorem spaced_of_logsEngineUse {now : Time} {e : String} {d : Diag}
    (hg : logsEngineUse now e d = true) : Spaced (lastEngineLine d) (e, now) := by
  intro heq
  simp only [lastEngineLine] at heq
  simpa [logsEngineUse, heq] using hg

/-! ### Every run -/

/-- Over every sequential run, the transition line is written at most once: exactly when
the run starts with the transition not yet logged and some call selects on the transition
block, and then it names that block. -/
theorem serveLog_transition_once (d : Diag) (trace : List (Time × Call χ)) :
    transitionLines (serveLog h d trace) =
      if d.transitionLogged = false ∧ ∃ p ∈ trace, selectionOf h p.2 = some h.transitionBlock
      then [h.transitionBlock] else [] := by
  induction trace generalizing d with
  | nil => simp [serveLog, transitionLines]
  | cons call rest ih =>
    obtain ⟨now, c⟩ := call
    rw [serveLog, transitionLines_append, ih, handle_fst]
    cases hs : selectionOf h c with
    | none =>
      simp only [handleLog, hs, transitionLines, List.filterMap_nil, List.nil_append,
        List.exists_mem_cons_iff, reduceCtorEq, false_or]
    | some b =>
      simp only [handleLog, hs, transitionLines_selectEngineRun, selectEngine_transitionLogged,
        Hybrid.logsTransition, List.exists_mem_cons_iff, Option.some.injEq]
      rcases d with ⟨_ | _, engine, time⟩ <;> by_cases hb : b = h.transitionBlock <;>
        simp [hb, -Prod.exists]

/-- Over every sequential run, two engine lines in a row that name the same engine are more
than ten seconds apart, the first of them included against the line the logging fields
record. -/
theorem serveLog_engine_lines_spaced (d : Diag) (trace : List (Time × Call χ)) :
    (engineLines (serveLog h d trace)).Chain Spaced (lastEngineLine d) := by
  induction trace generalizing d with
  | nil => exact List.Chain.nil
  | cons call rest ih =>
    obtain ⟨now, c⟩ := call
    rw [serveLog, engineLines_append, handle_fst]
    cases hs : selectionOf h c with
    | none => simpa [handleLog, hs] using ih d
    | some b =>
      have hrest := ih (h.selectEngine now b d).1
      rw [lastEngineLine_selectEngine] at hrest
      simp only [handleLog, hs, engineLines_selectEngineRun]
      cases hg : logsEngineUse now (engineName (h.shouldUsePoA b)) d
      · simpa [hg] using hrest
      · rw [hg, if_pos rfl] at hrest
        simpa [hg] using List.Chain.cons (spaced_of_logsEngineUse hg) hrest

/-- Over every sequential run, the engines named by the engine lines, repeats collapsed, are
the engines in use at the run's selections, repeats collapsed: every change of engine is
logged, and a line that is not a change repeats the engine last logged. -/
theorem serveLog_engine_changes (d : Diag) (trace : List (Time × Call χ)) :
    ((engineLines (serveLog h d trace)).map Prod.fst).destutter' (· ≠ ·) d.lastLoggedEngine =
      (selectedEngines h trace).destutter' (· ≠ ·) d.lastLoggedEngine := by
  induction trace generalizing d with
  | nil => rfl
  | cons call rest ih =>
    obtain ⟨now, c⟩ := call
    rw [serveLog, engineLines_append, List.map_append, handle_fst]
    cases hs : selectionOf h c with
    | none => simpa [handleLog, selectedEngines, hs] using ih d
    | some b =>
      have hrest := ih (h.selectEngine now b d).1
      rw [lastLoggedEngine_selectEngine] at hrest
      simp only [handleLog, hs, engineLines_selectEngineRun, selectedEngines, List.filterMap_cons,
        Option.map_some']
      cases hg : logsEngineUse now (engineName (h.shouldUsePoA b)) d
      · simpa [List.destutter'_cons, lastLoggedEngine_of_not_logsEngineUse hg] using hrest
      · by_cases he : d.lastLoggedEngine = engineName (h.shouldUsePoA b) <;>
          simpa [List.destutter'_cons, he] using hrest

end HybridConsensus.EngineLogging
