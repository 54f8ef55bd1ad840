import HybridConsensus.EngineLogging

/-!
# Concurrent `selectEngine` calls

The node calls one `Hybrid` from many goroutines at once. `selectEngine` reads and writes
`transitionLogged`, `lastLoggedEngine` and `lastLogTime` with no lock held: `shouldUsePoA`
takes the read lock for its own comparison only. Here each call in flight is a sequence of
atomic steps, one per statement that touches those fields (the rate-limit test reads its
two fields in one step), and a run is any interleaving of the calls' steps.

The engine a call returns reads no shared field (`selectEngine_snd`), so the steps leave
it out. When the calls do not overlap the system is the sequential one: a serial schedule
leaves the fields `serve` leaves and writes the lines `serveLog` writes, so `EngineLogging`
describes it. Interleaved, the test-then-set of `transitionLogged` is not atomic, nor are
the two writes after the rate-limit test. Still, in every interleaving the transition line
is written at most once per call on the transition block, and, once every call has
returned, at least once when one of them is on that block and the flag was unset; when
every such call tests the flag before any sets it, it is written once per call. And every
engine a call selects is named by an engine line unless it was the one logged last
before: the torn writes never hide a change of engine.
-/

namespace HybridConsensus.ConcurrentSelection

open EngineInterface EngineSelection HybridEngine EngineLogging

/-- The statements of `selectEngine` that touch shared state, one atomic step each. -/
inductive Stage
  /-- `shouldUsePoA`, with its boundary line. -/
  | enter
  /-- `if blockNumber == h.transitionBlock && !h.transitionLogged`. -/
  | testTransition
  /-- `h.transitionLogged = true`, with the transition lines. -/
  | markTransition
  /-- `if h.lastLoggedEngine != currentEngine || now.Sub(h.lastLogTime) > 10*time.Second`. -/
  | testRate
  /-- `h.lastLoggedEngine = currentEngine`. -/
  | setEngine
  /-- `h.lastLogTime = now`, with the engine line. -/
  | setTime
  /-- Returned its engine. -/
  | returned
  deriving DecidableEq

/-- One `selectEngine` call in flight. -/
structure Caller where
  /-- The `blockNumber` argument. -/
  blockNumber : UInt64
  /-- The reading the call's `time.Now()` gives. -/
  now : Time
  /-- The next statement to run. -/
  stage : Stage

/-- The logging fields the calls share, and the lines written so far. -/
structure Shared where
  /-- `transitionLogged`, `lastLoggedEngine` and `lastLogTime`. -/
  diag : Diag
  /-- The log, oldest line first. -/
  log : List LogLine

/-- The calls in flight on one `Hybrid`, and what they share. -/
structure System where
  /-- The shared fields and the log. -/
  shared : Shared
  /-- The calls, by position. -/
  callers : List Caller

variable {ε : Type} (h : Hybrid ε)

/-- One atomic step of one call; `none` once it has returned. -/
def stepCaller (s : Shared) (c : Caller) : Option (Shared × Caller) :=
  let usePoA := h.shouldUsePoA c.blockNumber
  let currentEngine := engineName usePoA
  match c.stage with
  | .enter =>
    some (⟨s.diag, s.log ++
        if h.atBoundary c.blockNumber then [.boundary c.blockNumber usePoA] else []⟩,
      { c with stage := .testTransition })
  | .testTransition =>
    some (s, { c with stage :=
      if h.logsTransition c.blockNumber s.diag then .markTransition else .testRate })
  | .markTransition =>
    some (⟨{ s.diag with transitionLogged := true }, s.log ++ [.transition c.blockNumber]⟩,
      { c with stage := .testRate })
  | .testRate =>
    some (s, { c with stage :=
      if logsEngineUse c.now currentEngine s.diag then .setEngine else .returned })
  | .setEngine =>
    some (⟨{ s.diag with lastLoggedEngine := currentEngine }, s.log⟩, { c with stage := .setTime })
  | .setTime =>
    some (⟨{ s.diag with lastLogTime := c.now },
        s.log ++ [.engineUse c.blockNumber currentEngine c.now]⟩, { c with stage := .returned })
  | .returned => none

/-- The call at position `i` takes one step; `none` if there is no such call or it has
returned. -/
def step (st : System) (i : ℕ) : Option System :=
  if hi : i < st.callers.length then
    (stepCaller h st.shared st.callers[i]).map fun r => ⟨r.1, st.callers.set i r.2⟩
  else none

/-- An interleaving: the positions of the calls that step, in order. -/
def run (st : System) : List ℕ → Option System
  | [] => some st
  | i :: sched => (step h st i).bind fun st' => run st' sched

/-- A call that may still write the transition line: on the transition block and not past
`h.transitionLogged = true`. -/
def mayMark (c : Caller) : Bool :=
  c.blockNumber == h.transitionBlock &&
    (c.stage == .enter || c.stage == .testTransition || c.stage == .markTransition)

/-- Only a call on the transition block stands at `h.transitionLogged = true`. -/
def Marking (callers : List Caller) : Prop :=
  ∀ c ∈ callers, c.stage = .markTransition → c.blockNumber = h.transitionBlock

theorem run_append (st : System) (sched sched' : List ℕ) :
    run h st (sched ++ sched') = (run h st sched).bind fun st' => run h st' sched' := by
  induction sched generalizing st with
  | nil => rfl
  | cons i sched ih => cases hs : step h st i <;> simp [run, hs, ih]

/-- Stepping the call at position `pre.length`. -/
theorem step_at (s : Shared) (pre post : List Caller) (c : Caller) :
    step h ⟨s, pre ++ c :: post⟩ pre.length =
      (stepCaller h s c).map fun r => ⟨r.1, pre ++ r.2 :: post⟩ := by
  simp [step, List.getElem_append_right]

/-! ### Serial schedules -/

/-- A call that runs from entry to return while no other call steps does what
`selectEngine` does: the same logging fields and the same lines, in at most six steps. -/
theorem run_solo (s : Shared) (pre post : List Caller) (c : Caller) (hc : c.stage = .enter) :
    ∃ k ≤ 6, run h ⟨s, pre ++ c :: post⟩ (List.replicate k pre.length) =
      some ⟨⟨(h.selectEngineRun c.now c.blockNumber s.diag).1,
          s.log ++ (h.selectEngineRun c.now c.blockNumber s.diag).2.1⟩,
        pre ++ { c with stage := .returned } :: post⟩ := by
  obtain ⟨b, now, stage⟩ := c
  obtain ⟨⟨logged, engine, time⟩, log⟩ := s
  subst hc
  cases ht : h.logsTransition b ⟨logged, engine, time⟩
  · have hf : (logged || b == h.transitionBlock) = logged := by
      cases logged <;> simp_all [Hybrid.logsTransition]
    cases hr : logsEngineUse now (engineName (h.shouldUsePoA b)) ⟨logged, engine, time⟩
    · exact ⟨3, by omega, by simp [run, step_at, stepCaller, ht, hr, selectEngineRun_eq, hf]⟩
    · exact ⟨5, by omega, by simp [run, step_at, stepCaller, ht, hr, selectEngineRun_eq, hf]⟩
  · obtain ⟨rfl, rfl⟩ : b = h.transitionBlock ∧ logged = false := by
      simpa [Hybrid.logsTransition] using ht
    have hg : logsEngineUse now (engineName (h.shouldUsePoA h.transitionBlock))
        ⟨true, engine, time⟩ =
      logsEngineUse now (engineName (h.shouldUsePoA h.transitionBlock)) ⟨false, engine, time⟩ :=
      rfl
    cases hr :
      logsEngineUse now (engineName (h.shouldUsePoA h.transitionBlock)) ⟨false, engine, time⟩
    · exact ⟨4, by omega, by simp [run, step_at, stepCaller, ht, hg, hr, selectEngineRun_eq]⟩
    · exact ⟨6, by omega, by simp [run, step_at, stepCaller, ht, hg, hr, selectEngineRun_eq]⟩

/-- The calls of a run that go through `selectEngine`, each about to enter it. -/
def selectingCallers {χ : Host} (trace : List (Time × Call χ)) : List Caller :=
  trace.filterMap fun p => (selectionOf h p.2).map fun b => ⟨b, p.1, .enter⟩

/-- A serial schedule: from position `n` on, each call takes its `k` steps before the next
call starts. -/
def serial (n : ℕ) : List ℕ → List ℕ
  | [] => []
  | k :: ks => List.replicate k n ++ serial (n + 1) ks

/-- The concurrent calls refine the sequential run: whatever calls the node makes, letting
each call of `selectEngine` finish before the next starts (in at most six steps each) leaves
exactly the logging fields `serve` leaves and writes exactly the lines `serveLog` writes,
after any lines already there and beside any calls that do not step. -/
theorem serial_run_refines_serve {χ : Host} (trace : List (Time × Call χ)) :
    ∀ (d : Diag) (log : List LogLine) (done : List Caller), ∃ ks : List ℕ,
      ks.length = (selectingCallers h trace).length ∧ (∀ k ∈ ks, k ≤ 6) ∧
      run h ⟨⟨d, log⟩, done ++ selectingCallers h trace⟩ (serial done.length ks) =
        some ⟨⟨(serve h d trace).1, log ++ serveLog h d trace⟩,
          done ++ (selectingCallers h trace).map fun c => { c with stage := .returned }⟩ := by
  induction trace with
  | nil =>
    intro d log done
    exact ⟨[], rfl, by simp, by simp [serial, run, selectingCallers, serve, serveLog]⟩
  | cons p rest ih =>
    intro d log done
    obtain ⟨now, c⟩ := p
    cases hsel : selectionOf h c with
    | none =>
      have hd : (handle h now c d).1 = d := by rw [handle_fst, hsel]
      obtain ⟨ks, hlen, hks, hrun⟩ := ih d log done
      refine ⟨ks, by simpa [selectingCallers, hsel] using hlen, hks, ?_⟩
      simpa [selectingCallers, hsel, serve, serveLog, handleLog, hd] using hrun
    | some b =>
      have hd : (handle h now c d).1 = (h.selectEngineRun now b d).1 := by
        rw [handle_fst, hsel]; rfl
      have hl : handleLog h now c d = (h.selectEngineRun now b d).2.1 := by
        simp [handleLog, hsel]
      have hcallers : selectingCallers h ((now, c) :: rest) =
          ⟨b, now, .enter⟩ :: selectingCallers h rest := by simp [selectingCallers, hsel]
      obtain ⟨k, hk, hsolo⟩ :=
        run_solo h ⟨d, log⟩ done (selectingCallers h rest) ⟨b, now, .enter⟩ rfl
      obtain ⟨ks, hlen, hks, hrun⟩ :=
        ih (h.selectEngineRun now b d).1 (log ++ (h.selectEngineRun now b d).2.1)
          (done ++ [⟨b, now, .returned⟩])
      refine ⟨k :: ks, by simp [hcallers, hlen], List.forall_mem_cons.mpr ⟨hk, hks⟩, ?_⟩
      simp only [List.length_append, List.length_singleton, List.append_assoc,
        List.singleton_append] at hrun
      rw [hcallers, serial, run_append, hsolo, Option.some_bind]
      simpa [serve, serveLog, hd, hl] using hrun

/-! ### Every interleaving -/

@[simp] theorem transitionLines_boundary (b : UInt64) (usePoA : Bool) (t : Bool) :
    transitionLines (if t then [LogLine.boundary b usePoA] else []) = [] := by
  cases t <;> rfl

/-- One step writes a transition line only as it takes a call on the transition block past
`h.transitionLogged = true`. -/
theorem stepCaller_marks {s s' : Shared} {c c' : Caller} (hs : stepCaller h s c = some (s', c'))
    (hc : c.stage = .markTransition → c.blockNumber = h.transitionBlock) :
    (c'.stage = .markTransition → c'.blockNumber = h.transitionBlock) ∧
    (transitionLines s'.log).length + (if mayMark h c' then 1 else 0) ≤
      (transitionLines s.log).length + (if mayMark h c then 1 else 0) := by
  obtain ⟨b, now, stage⟩ := c
  cases stage <;> simp only [stepCaller, Option.some.injEq, Prod.mk.injEq, reduceCtorEq] at hs <;>
    obtain ⟨rfl, rfl⟩ := hs
  case enter.intro => simp [mayMark]
  case testTransition.intro =>
    cases ht : h.logsTransition b s.diag
    · simp [mayMark]
    · have hb : b = h.transitionBlock := (by simpa [Hybrid.logsTransition] using ht : _ ∧ _).1
      simp [mayMark, hb]
  case markTransition.intro =>
    have hb : b = h.transitionBlock := hc rfl
    simp [mayMark, hb, transitionLines]
  case testRate.intro => split <;> simp [mayMark]
  all_goals simp [mayMark, transitionLines]

/-- One step of any call keeps `Marking`, and each transition line it writes uses up one
call that may still write it. -/
theorem step_marks {st st' : System} {i : ℕ} (hs : step h st i = some st')
    (hm : Marking h st.callers) :
    Marking h st'.callers ∧
    (transitionLines st'.shared.log).length + st'.callers.countP (mayMark h) ≤
      (transitionLines st.shared.log).length + st.callers.countP (mayMark h) := by
  unfold step at hs
  split at hs
  · rename_i hi
    obtain ⟨⟨s', c'⟩, hc, rfl⟩ := Option.map_eq_some'.mp hs
    obtain ⟨hm', hle⟩ := stepCaller_marks h hc (hm _ (List.getElem_mem hi))
    refine ⟨fun c hc' hstage => ?_, ?_⟩
    · rcases List.mem_or_eq_of_mem_set hc' with hc' | rfl
      · exact hm c hc' hstage
      · exact hm' hstage
    · have hset := List.countP_set (mayMark h) st.callers i c' hi
      have hold := List.boole_getElem_le_countP (mayMark h) st.callers i hi
      dsimp only
      omega
  · cases hs

theorem run_marks {st st' : System} (sched : List ℕ) (hrun : run h st sched = some st')
    (hm : Marking h st.callers) :
    Marking h st'.callers ∧
    (transitionLines st'.shared.log).length + st'.callers.countP (mayMark h) ≤
      (transitionLines st.shared.log).length + st.callers.countP (mayMark h) := by
  induction sched generalizing st with
  | nil => cases hrun; exact ⟨hm, le_rfl⟩
  | cons i sched ih =>
    cases hs : step h st i with
    | none => simp [run, hs] at hrun
    | some st₁ =>
      obtain ⟨hm₁, hle₁⟩ := step_marks h hs hm
      obtain ⟨hm', hle⟩ := ih (by simpa [run, hs] using hrun) hm₁
      exact ⟨hm', hle.trans hle₁⟩

/-- In every interleaving of calls that have just entered `selectEngine`, the transition line
is written at most once per call on the transition block. -/
theorem interleaving_transition_lines_le (s : Shared) (callers : List Caller)
    (hfresh : ∀ c ∈ callers, c.stage = .enter) {sched : List ℕ} {st' : System}
    (hrun : run h ⟨s, callers⟩ sched = some st') :
    (transitionLines st'.shared.log).length ≤
      (transitionLines s.log).length +
        callers.countP fun c => c.blockNumber == h.transitionBlock := by
  have hm : Marking h callers := fun c hc hst => by rw [hfresh c hc] at hst; cases hst
  have hcount : callers.countP (mayMark h) =
      callers.countP fun c => c.blockNumber == h.transitionBlock :=
    List.countP_congr fun c hc => by simp [mayMark, hfresh c hc]
  have := (run_marks h sched hrun hm).2
  dsimp only at this
  omega

theorem interleaving_two_calls_at_transition :
    (∀ c ∈ [(⟨100, 0, .enter⟩ : Caller), ⟨100, 0, .enter⟩], c.stage = .enter) ∧
    ∃ st', run (⟨"pos", "poa", 100, defaultInitialSigners⟩ : Hybrid String)
        ⟨⟨Diag.init, []⟩, [⟨100, 0, .enter⟩, ⟨100, 0, .enter⟩]⟩ [0, 1, 0, 1, 0, 1] = some st' ∧
      (transitionLines st'.shared.log).length ≤ 2 :=
  ⟨by decide, _, rfl, @interleaving_transition_lines_le _ ⟨"pos", "poa", 100, defaultInitialSigners⟩
    ⟨Diag.init, []⟩ [⟨100, 0, .enter⟩, ⟨100, 0, .enter⟩] (by decide) [0, 1, 0, 1, 0, 1] _ rfl⟩

/-! ### Invariants of every interleaving -/

/-- A property every step keeps holds after every schedule. -/
theorem run_invariant (I : System → Prop)
    (hstep : ∀ {st st' : System} {i : ℕ}, step h st i = some st' → I st → I st')
    {st st' : System} (sched : List ℕ) (hrun : run h st sched = some st') (hI : I st) :
    I st' := by
  induction sched generalizing st with
  | nil => cases hrun; exact hI
  | cons i sched ih =>
    cases hs : step h st i with
    | none => simp [run, hs] at hrun
    | some st₁ => exact ih (by simpa [run, hs] using hrun) (hstep hs hI)

/-- Everything a step does: one call, between the calls `pre` and `post`, runs one statement. -/
theorem step_eq_some {st : System} {i : ℕ} {s' : Shared} {callers' : List Caller}
    (hs : step h st i = some ⟨s', callers'⟩) :
    ∃ pre c post c', st.callers = pre ++ c :: post ∧ callers' = pre ++ c' :: post ∧
      stepCaller h st.shared c = some (s', c') := by
  unfold step at hs
  split at hs
  · rename_i hi
    obtain ⟨⟨s₁, c'⟩, hc, hst⟩ := Option.map_eq_some'.mp hs
    cases hst
    refine ⟨_, _, _, c', ?_, List.set_eq_take_append_cons_drop.trans (if_pos hi), hc⟩
    rw [← List.drop_eq_getElem_cons hi, List.take_append_drop]
  · cases hs

/-- A call after a step is the call that stepped or one that was there before. -/
theorem mem_after_step {pre post : List Caller} {c c' x : Caller}
    (hx : x ∈ pre ++ c' :: post) : x = c' ∨ x ∈ pre ++ c :: post := by
  simp only [List.mem_append, List.mem_cons] at hx ⊢
  rcases hx with hx | rfl | hx
  · exact .inr (.inl hx)
  · exact .inl rfl
  · exact .inr (.inr (.inr hx))

/-- A step keeps the call's block number and only appends to the log. -/
theorem stepCaller_frame {s s' : Shared} {c c' : Caller} (hs : stepCaller h s c = some (s', c')) :
    c'.blockNumber = c.blockNumber ∧ ∃ new, s'.log = s.log ++ new := by
  obtain ⟨b, now, stage⟩ := c
  cases stage <;> simp only [stepCaller, Option.some.injEq, Prod.mk.injEq, reduceCtorEq] at hs <;>
    obtain ⟨rfl, rfl⟩ := hs <;>
    first | exact ⟨rfl, _, rfl⟩ | exact ⟨rfl, [], (List.append_nil _).symm⟩

/-- Every schedule keeps each call at its position with its block number. -/
theorem run_blockNumbers {st st' : System} (sched : List ℕ) (hrun : run h st sched = some st') :
    st'.callers.map Caller.blockNumber = st.callers.map Caller.blockNumber :=
  run_invariant h (fun x => x.callers.map Caller.blockNumber = st.callers.map Caller.blockNumber)
    (fun {st₁ st₂ _} hs h₁ => by
      obtain ⟨s', callers'⟩ := st₂
      obtain ⟨pre, c, post, c', hpre, rfl, hc⟩ := step_eq_some h hs
      rw [← h₁, hpre]
      simp [(stepCaller_frame h hc).1]) sched hrun rfl

/-- After every schedule, each call of the start is still there, with its block number. -/
theorem exists_of_run {st st' : System} {sched : List ℕ} (hrun : run h st sched = some st')
    {c : Caller} (hc : c ∈ st.callers) : ∃ x ∈ st'.callers, x.blockNumber = c.blockNumber := by
  have hmem := List.mem_map_of_mem Caller.blockNumber hc
  rw [← run_blockNumbers h sched hrun] at hmem
  simpa using hmem

@[simp] theorem transitionLines_transition (b : UInt64) :
    transitionLines [LogLine.transition b] = [b] := rfl

@[simp] theorem transitionLines_engineUse (b : UInt64) (engine : String) (time : Time) :
    transitionLines [LogLine.engineUse b engine time] = [] := rfl

@[simp] theorem engineLines_engineUse (b : UInt64) (engine : String) (time : Time) :
    engineLines [LogLine.engineUse b engine time] = [(engine, time)] := rfl

/-! #### The transition line is never lost -/

/-- The statements after the transition test: a call there has set `h.transitionLogged` or
found it set. -/
def Stage.pastMark : Stage → Bool
  | .testRate | .setEngine | .setTime | .returned => true
  | _ => false

/-- What every interleaving keeps about the transition line, from a log without one. -/
structure TransitionSeen (st : System) : Prop where
  /-- Only a call on the transition block stands at `h.transitionLogged = true`. -/
  marking : Marking h st.callers
  /-- Every transition line names the transition block. -/
  names : ∀ b ∈ transitionLines st.shared.log, b = h.transitionBlock
  /-- The flag is set only by a step that writes the line. -/
  written : st.shared.diag.transitionLogged = true → transitionLines st.shared.log ≠ []
  /-- A call on the transition block past its test has seen the flag set. -/
  seen : ∀ c ∈ st.callers, c.blockNumber = h.transitionBlock → c.stage.pastMark = true →
    st.shared.diag.transitionLogged = true

theorem step_transitionSeen {st st' : System} {i : ℕ} (hs : step h st i = some st')
    (hI : TransitionSeen h st) : TransitionSeen h st' := by
  have hm := (step_marks h hs hI.marking).1
  obtain ⟨s', callers'⟩ := st'
  obtain ⟨pre, ⟨b, now, stage⟩, post, c', hpre, rfl, hc⟩ := step_eq_some h hs
  have hold : ∀ x ∈ pre ++ c' :: post, x = c' ∨ x ∈ st.callers := fun x hx => by
    rw [hpre]; exact mem_after_step hx
  have hc₀ : ⟨b, now, stage⟩ ∈ st.callers := by rw [hpre]; simp
  have hb := hI.marking _ hc₀
  have hseen := hI.seen _ hc₀
  cases stage <;> simp only [stepCaller, Option.some.injEq, Prod.mk.injEq, reduceCtorEq] at hc <;>
    obtain ⟨rfl, rfl⟩ := hc
  case markTransition.intro =>
    refine ⟨hm, fun b' hb' => ?_, fun _ => by simp, fun _ _ _ _ => rfl⟩
    simp only [transitionLines_append, transitionLines_transition, List.mem_append,
      List.mem_singleton] at hb'
    exact hb'.elim (hI.names b') fun hb' => hb'.trans (hb rfl)
  all_goals refine ⟨hm, fun b' hb' => hI.names b' (by simpa using hb'),
    fun hf => by simpa using hI.written hf, fun x hx hxb hxp => (hold x hx).elim
      (fun hx => ?_) fun hx => hI.seen x hx hxb hxp⟩
  all_goals subst hx; dsimp only at hxb hxp ⊢
  case enter.intro => cases hxp
  case testTransition.intro =>
    cases ht : h.logsTransition b st.shared.diag
    · simpa [Hybrid.logsTransition, hxb] using ht
    · simp [ht, Stage.pastMark] at hxp
  all_goals exact hseen hxb rfl

/-- In every interleaving of calls that have just entered `selectEngine`, from logging fields
with the transition not yet logged and an empty log, once every call has returned: when one
of the calls is on the transition block, the transition line was written, and every copy of
it names that block. No interleaving loses it. -/
theorem interleaving_logs_transition (d : Diag) (hd : d.transitionLogged = false)
    (callers : List Caller) (hfresh : ∀ c ∈ callers, c.stage = .enter)
    (hon : ∃ c ∈ callers, c.blockNumber = h.transitionBlock) {sched : List ℕ} {st' : System}
    (hrun : run h ⟨⟨d, []⟩, callers⟩ sched = some st')
    (hdone : ∀ c ∈ st'.callers, c.stage = .returned) :
    ∃ k, 0 < k ∧ transitionLines st'.shared.log = List.replicate k h.transitionBlock := by
  have hI : TransitionSeen h st' := run_invariant h (TransitionSeen h) (step_transitionSeen h)
    sched hrun
    { marking := fun c hc hst => by rw [hfresh c hc] at hst; cases hst
      names := fun _ hb => by cases hb
      written := fun hf => by simp [hd] at hf
      seen := fun c hc _ hp => by simp [hfresh c hc, Stage.pastMark] at hp }
  obtain ⟨c, hc, hcb⟩ := hon
  obtain ⟨x, hx, hxb⟩ := exists_of_run h hrun hc
  have hflag := hI.seen x hx (hxb.trans hcb) (by rw [hdone x hx]; rfl)
  exact ⟨_, List.length_pos.mpr (hI.written hflag), List.eq_replicate_iff.mpr ⟨rfl, hI.names⟩⟩

theorem two_calls_at_transition_return :
    Diag.init.transitionLogged = false ∧
    (∀ c ∈ [(⟨100, 0, .enter⟩ : Caller), ⟨100, 0, .enter⟩], c.stage = .enter) ∧
    (∃ c ∈ [(⟨100, 0, .enter⟩ : Caller), ⟨100, 0, .enter⟩],
      c.blockNumber = (⟨"pos", "poa", 100, defaultInitialSigners⟩ : Hybrid String).transitionBlock) ∧
    ∃ st', run (⟨"pos", "poa", 100, defaultInitialSigners⟩ : Hybrid String)
        ⟨⟨Diag.init, []⟩, [⟨100, 0, .enter⟩, ⟨100, 0, .enter⟩]⟩
        [0, 1, 0, 1, 0, 1, 0, 1, 0, 1, 0, 1] = some st' ∧
      (∀ c ∈ st'.callers, c.stage = .returned) ∧
      ∃ k, 0 < k ∧ transitionLines st'.shared.log = List.replicate k 100 :=
  ⟨rfl, by decide, by decide, _, rfl, by decide,
    @interleaving_logs_transition _ ⟨"pos", "poa", 100, defaultInitialSigners⟩ Diag.init rfl
      [⟨100, 0, .enter⟩, ⟨100, 0, .enter⟩] (by decide) (by decide)
      [0, 1, 0, 1, 0, 1, 0, 1, 0, 1, 0, 1] _ rfl (by decide)⟩

/-! #### No change of engine is hidden -/

/-- An engine named by an engine line of the log, or by a call about to write one. -/
def Named (st : System) (engine : String) : Prop :=
  engine ∈ (engineLines st.shared.log).map Prod.fst ∨
    ∃ c ∈ st.callers, c.stage = .setTime ∧ engineName (h.shouldUsePoA c.blockNumber) = engine

/-- A name stays named: lines are never taken back, and a call about to write one writes it. -/
theorem named_step {st st' : System} {i : ℕ} (hs : step h st i = some st') {engine : String}
    (hn : Named h st engine) : Named h st' engine := by
  obtain ⟨s', callers'⟩ := st'
  obtain ⟨pre, c, post, c', hpre, rfl, hc⟩ := step_eq_some h hs
  obtain ⟨-, new, hlog⟩ := stepCaller_frame h hc
  rcases hn with hl | ⟨x, hx, hxs, rfl⟩
  · exact .inl (by simp [hlog, hl])
  · rw [hpre, List.mem_append, List.mem_cons] at hx
    rcases hx with hx | rfl | hx
    · exact .inr ⟨x, by simp [hx], hxs, rfl⟩
    · obtain ⟨b, now, stage⟩ := x
      subst hxs
      simp only [stepCaller, Option.some.injEq, Prod.mk.injEq] at hc
      obtain ⟨rfl, rfl⟩ := hc
      exact .inl (by simp)
    · exact .inr ⟨x, by simp [hx], hxs, rfl⟩

/-- What every interleaving keeps about the engine lines, against the engine `last` logged
before it. -/
structure EnginesSeen (last : String) (st : System) : Prop where
  /-- The engine the fields record was logged before, or is named since. -/
  recorded : st.shared.diag.lastLoggedEngine = last ∨
    Named h st st.shared.diag.lastLoggedEngine
  /-- A call that has returned selected an engine logged before, or named since. -/
  returned : ∀ c ∈ st.callers, c.stage = .returned →
    engineName (h.shouldUsePoA c.blockNumber) = last ∨
      Named h st (engineName (h.shouldUsePoA c.blockNumber))

theorem step_enginesSeen {last : String} {st st' : System} {i : ℕ}
    (hs : step h st i = some st') (hI : EnginesSeen h last st) : EnginesSeen h last st' := by
  have hmono : ∀ {e}, Named h st e → Named h st' e := named_step h hs
  obtain ⟨s', callers'⟩ := st'
  obtain ⟨pre, ⟨b, now, stage⟩, post, c', hpre, rfl, hc⟩ := step_eq_some h hs
  have hold : ∀ x ∈ pre ++ c' :: post, x = c' ∨ x ∈ st.callers := fun x hx => by
    rw [hpre]; exact mem_after_step hx
  cases stage <;> simp only [stepCaller, Option.some.injEq, Prod.mk.injEq, reduceCtorEq] at hc <;>
    obtain ⟨rfl, rfl⟩ := hc
  case setEngine.intro => exact ⟨.inr (.inr ⟨⟨b, now, .setTime⟩, by simp, rfl, rfl⟩),
    fun x hx hxr => by
      rcases hold x hx with rfl | hx
      · cases hxr
      · exact (hI.returned x hx hxr).imp_right hmono⟩
  all_goals refine ⟨hI.recorded.imp_right hmono, fun x hx hxr => (hold x hx).elim
    (fun hx => ?_) fun hx => (hI.returned x hx hxr).imp_right hmono⟩
  all_goals subst hx; dsimp only at hxr ⊢
  case testRate.intro =>
    split at hxr
    · cases hxr
    · rename_i hg
      have hr := hI.recorded.imp_right hmono
      rwa [lastLoggedEngine_of_not_logsEngineUse (Bool.eq_false_iff.mpr hg)] at hr
  case setTime.intro => exact .inr (.inl (by simp))
  case testTransition.intro => split at hxr <;> cases hxr
  all_goals cases hxr

/-- In every interleaving of calls that have just entered `selectEngine`, from any logging
fields and an empty log, once every call has returned: the engine each call selected is the
one logged last before the run, or an engine line of the run names it. The torn updates of
`lastLoggedEngine` and `lastLogTime` never hide a change of engine. -/
theorem interleaving_logs_every_engine (d : Diag) (callers : List Caller)
    (hfresh : ∀ c ∈ callers, c.stage = .enter) {sched : List ℕ} {st' : System}
    (hrun : run h ⟨⟨d, []⟩, callers⟩ sched = some st')
    (hdone : ∀ c ∈ st'.callers, c.stage = .returned) :
    ∀ c ∈ callers, engineName (h.shouldUsePoA c.blockNumber) = d.lastLoggedEngine ∨
      engineName (h.shouldUsePoA c.blockNumber) ∈ (engineLines st'.shared.log).map Prod.fst := by
  have hI : EnginesSeen h d.lastLoggedEngine st' :=
    run_invariant h _ (step_enginesSeen h) sched hrun
      { recorded := .inl rfl
        returned := fun c hc hr => by rw [hfresh c hc] at hr; cases hr }
  intro c hc
  obtain ⟨x, hx, hxb⟩ := exists_of_run h hrun hc
  rw [← hxb]
  refine (hI.returned x hx (hdone x hx)).imp_right fun hn => hn.resolve_right ?_
  rintro ⟨y, hy, hys, -⟩
  rw [hdone y hy] at hys
  cases hys

theorem calls_either_side_return :
    (∀ c ∈ [(⟨99, 0, .enter⟩ : Caller), ⟨100, 0, .enter⟩], c.stage = .enter) ∧
    ∃ st', run (⟨"pos", "poa", 100, defaultInitialSigners⟩ : Hybrid String)
        ⟨⟨Diag.init, []⟩, [⟨99, 0, .enter⟩, ⟨100, 0, .enter⟩]⟩
        [0, 1, 0, 1, 0, 1, 0, 1, 0, 1, 1] = some st' ∧
      (∀ c ∈ st'.callers, c.stage = .returned) ∧
      ∀ c ∈ [(⟨99, 0, .enter⟩ : Caller), ⟨100, 0, .enter⟩],
        engineName ((⟨"pos", "poa", 100, defaultInitialSigners⟩ : Hybrid String).shouldUsePoA
            c.blockNumber) = Diag.init.lastLoggedEngine ∨
          engineName ((⟨"pos", "poa", 100, defaultInitialSigners⟩ : Hybrid String).shouldUsePoA
            c.blockNumber) ∈ (engineLines st'.shared.log).map Prod.fst :=
  ⟨by decide, _, rfl, by decide,
    @interleaving_logs_every_engine _ ⟨"pos", "poa", 100, defaultInitialSigners⟩ Diag.init
      [⟨99, 0, .enter⟩, ⟨100, 0, .enter⟩] (by decide) [0, 1, 0, 1, 0, 1, 0, 1, 0, 1, 1] _ rfl
      (by decide)⟩

/-! ### The race -/

/-- A round in which the calls of `todo`, in order, each take one step that changes the shared
part by `upd` and the call by `adv`, as long as `P` holds of the shared part. -/
theorem run_round (P : Shared → Prop) (upd : Shared → Caller → Shared) (adv : Caller → Caller)
    (todo : List Caller)
    (hstep : ∀ s, ∀ c ∈ todo, P s → stepCaller h s c = some (upd s c, adv c) ∧ P (upd s c)) :
    ∀ (done : List Caller) (s : Shared), P s →
      run h ⟨s, done ++ todo⟩ (List.range' done.length todo.length) =
        some ⟨todo.foldl upd s, done ++ todo.map adv⟩ ∧ P (todo.foldl upd s) := by
  induction todo with
  | nil => intro done s hP; exact ⟨by simp [run], hP⟩
  | cons c rest ih =>
    intro done s hP
    obtain ⟨hc, hP'⟩ := hstep s c (List.mem_cons_self _ _) hP
    obtain ⟨hrun, hPend⟩ := ih (fun s c' hc' => hstep s c' (List.mem_cons_of_mem _ hc'))
      (done ++ [adv c]) (upd s c) hP'
    simp only [List.length_append, List.length_singleton, List.append_assoc,
      List.singleton_append] at hrun
    refine ⟨?_, hPend⟩
    rw [List.length_cons, List.range'_succ, run, step_at, hc]
    simpa using hrun

/-- A round whose steps each write `k` transition lines naming block `a`. -/
theorem transitionLines_foldl (upd : Shared → Caller → Shared) (k : ℕ) (a : UInt64)
    (l : List Caller)
    (hupd : ∀ s, ∀ c ∈ l, transitionLines (upd s c).log =
      transitionLines s.log ++ List.replicate k a) (s : Shared) :
    transitionLines (l.foldl upd s).log =
      transitionLines s.log ++ List.replicate (l.length * k) a := by
  induction l generalizing s with
  | nil => simp
  | cons c rest ih =>
    rw [List.foldl_cons, ih (fun s c hc => hupd s c (List.mem_cons_of_mem _ hc)),
      hupd s c (List.mem_cons_self _ _), List.append_assoc, ← List.replicate_add, List.length_cons,
      Nat.succ_mul, Nat.add_comm k]

/-- When every call on the transition block tests `transitionLogged` before any of them sets
it, each writes the transition line: from a state where it is not logged, the three rounds
"all enter, all test, all set" write it once per call. -/
theorem all_test_before_any_mark (d : Diag) (hd : d.transitionLogged = false)
    (log : List LogLine) (callers : List Caller)
    (hcallers : ∀ c ∈ callers, c.blockNumber = h.transitionBlock ∧ c.stage = .enter) :
    ∃ st', run h ⟨⟨d, log⟩, callers⟩
        (List.range callers.length ++ List.range callers.length ++ List.range callers.length) =
        some st' ∧
      transitionLines st'.shared.log =
        transitionLines log ++ List.replicate callers.length h.transitionBlock := by
  -- every call runs `shouldUsePoA`
  obtain ⟨r₁, hd₁⟩ := run_round h (fun s => s.diag = d)
    (fun s c => ⟨s.diag, s.log ++ if h.atBoundary c.blockNumber
      then [.boundary c.blockNumber (h.shouldUsePoA c.blockNumber)] else []⟩)
    (fun c => { c with stage := .testTransition }) callers
    (fun s c hc hP => ⟨by simp [stepCaller, (hcallers c hc).2], hP⟩) [] ⟨d, log⟩ rfl
  -- every call finds `transitionLogged` unset
  obtain ⟨r₂, -⟩ := run_round h (fun s => s.diag = d) (fun s _ => s)
    (fun c => { c with stage := .markTransition })
    (callers.map fun c => { c with stage := .testTransition })
    (fun s c hc hP => by
      obtain ⟨c₀, hc₀, rfl⟩ := List.mem_map.mp hc
      exact ⟨by simp [stepCaller, Hybrid.logsTransition, hP, hd, (hcallers c₀ hc₀).1], hP⟩)
    [] _ hd₁
  -- every call sets it and writes the line
  obtain ⟨r₃, -⟩ := run_round h (fun _ => True)
    (fun s c => ⟨{ s.diag with transitionLogged := true }, s.log ++ [.transition c.blockNumber]⟩)
    (fun c => { c with stage := .testRate })
    ((callers.map fun c => { c with stage := .testTransition }).map
      fun c => { c with stage := .markTransition })
    (fun s c hc _ => by
      obtain ⟨c₁, hc₁, rfl⟩ := List.mem_map.mp hc
      obtain ⟨c₀, -, rfl⟩ := List.mem_map.mp hc₁
      exact ⟨by simp [stepCaller], trivial⟩)
    [] _ trivial
  simp only [List.nil_append, List.length_nil, List.length_map] at r₁ r₂ r₃
  refine ⟨_, by rw [run_append, run_append, List.range_eq_range', r₁, Option.some_bind, r₂,
    Option.some_bind, r₃], ?_⟩
  rw [transitionLines_foldl _ 1 h.transitionBlock _ (fun s c hc => by
      obtain ⟨c₁, hc₁, rfl⟩ := List.mem_map.mp hc
      obtain ⟨c₀, hc₀, rfl⟩ := List.mem_map.mp hc₁
      simp [transitionLines, (hcallers c₀ hc₀).1]),
    transitionLines_foldl _ 0 h.transitionBlock _ (fun s c _ => by simp),
    transitionLines_foldl _ 0 h.transitionBlock _ (fun s c _ => by simp)]
  simp

theorem two_calls_both_log_transition :
    Diag.init.transitionLogged = false ∧
    (∀ c ∈ [(⟨100, 0, .enter⟩ : Caller), ⟨100, 0, .enter⟩],
      c.blockNumber = (⟨"pos", "poa", 100, defaultInitialSigners⟩ : Hybrid String).transitionBlock ∧
        c.stage = .enter) ∧
    ∃ st', run (⟨"pos", "poa", 100, defaultInitialSigners⟩ : Hybrid String)
        ⟨⟨Diag.init, []⟩, [⟨100, 0, .enter⟩, ⟨100, 0, .enter⟩]⟩
        (List.range 2 ++ List.range 2 ++ List.range 2) = some st' ∧
      transitionLines st'.shared.log = [100, 100] :=
  ⟨rfl, by decide, all_test_before_any_mark ⟨"pos", "poa", 100, defaultInitialSigners⟩ Diag.init
    rfl [] [⟨100, 0, .enter⟩, ⟨100, 0, .enter⟩] (by decide)⟩

end HybridConsensus.ConcurrentSelection
