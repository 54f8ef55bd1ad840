import HybridConsensus.HybridEngine

/-!
# The verifier goroutine of a straddling batch

On a batch that straddles the transition, `VerifyHeaders` makes an
unbuffered `quit` channel and a `results` channel of capacity
`len(headers)`, and starts a goroutine that ranges over the headers: it
returns if `quit` is closed, else calls `VerifyHeader` and selects between
sending the verdict on `results` and `quit`; its deferred `close(results)`
runs when it returns. The caller receives from `results` and may close
`quit` at any moment.

`next` is one step of that system, the goroutine's or the caller's, with
Go's choice between two ready `select` cases left to the event. Every run
keeps the invariant `Inv`: what was sent is the verdicts of a prefix of the
batch, in order, and the buffer never fills at a send. Once `quit` is
closed at most one more `VerifyHeader` call and one more send happen, and
the goroutine returns after at most three of its own steps; without an
abort it verifies the whole batch and sends every verdict.
-/

namespace HybridConsensus.VerifierRoutine

open EngineInterface EngineSelection Delegation BatchVerification

/-- Where the verifier goroutine stands. -/
inductive Pc (χ : Host)
  /-- At the loop head with `rest` still to range over. -/
  | check (rest : List (Header χ))
  /-- The `default` branch of the abort check was taken for `header`. -/
  | verify (header : Header χ) (rest : List (Header χ))
  /-- At `select { case results <- err: case <-quit: }`. -/
  | send (err : GoError) (rest : List (Header χ))
  /-- Returned; the deferred `close(results)` has run. -/
  | exited

/-- The goroutine, the two channels, and what the caller has received. -/
structure Routine (χ : Host) (ε : Type) where
  /-- The goroutine's position. -/
  pc : Pc χ
  /-- Values sent on `results` and not yet received, oldest first. -/
  buffer : List GoError
  /-- Values the caller has received from `results`, in order. -/
  received : List GoError
  /-- The caller has closed `quit`. -/
  quitClosed : Bool
  /-- How many times `close(results)` has run. -/
  resultsCloses : ℕ
  /-- The sub-engine invocations made by the goroutine's `VerifyHeader` calls. -/
  calls : List (ε × Call χ)

/-- One step of the system. -/
inductive Event
  /-- The goroutine runs its next statement; at the inner `select`, the send. -/
  | advance
  /-- The goroutine's inner `select` takes the `<-quit` case. -/
  | takeQuit
  /-- The caller receives one value from `results`. -/
  | receive
  /-- The caller closes `quit`. -/
  | abort
  deriving DecidableEq

/-- What the straddling path starts its goroutine with. -/
structure Launch (χ : Host) (ε : Type) where
  /-- The hybrid whose `VerifyHeader` the goroutine calls. -/
  hybrid : Hybrid ε
  /-- The chain reader passed to `VerifyHeaders`. -/
  chain : χ.Chain
  /-- The batch; `results` is made with capacity `len(headers)`. -/
  headers : List (Header χ)
  /-- The sub-engines' answers. -/
  answer : (e : ε) → (c : Call χ) → c.Ret

variable {χ : Host} {ε : Type} (g : Launch χ ε)

/-- `VerifyHeader(chain, header)` as the goroutine runs it: its invocations and verdict. -/
def Launch.verify (header : Header χ) : List (ε × Call χ) × GoError :=
  (verifyHeader g.hybrid g.chain header).run g.answer

/-- The goroutine's state when `VerifyHeaders` returns. -/
def Launch.start : Routine χ ε := ⟨.check g.headers, [], [], false, 0, []⟩

/-- Return from the goroutine: the deferred `close(results)` runs. -/
def Routine.exit (s : Routine χ ε) : Routine χ ε :=
  { s with pc := .exited, resultsCloses := s.resultsCloses + 1 }

/-- One step, `none` when the event cannot happen in state `s`. -/
def next (s : Routine χ ε) : Event → Option (Routine χ ε)
  | .advance =>
    match s.pc with
    | .check [] => some s.exit
    | .check (header :: rest) =>
      if s.quitClosed then some s.exit else some { s with pc := .verify header rest }
    | .verify header rest =>
      some { s with pc := .send (g.verify header).2 rest, calls := s.calls ++ (g.verify header).1 }
    | .send err rest =>
      if s.buffer.length < g.headers.length then
        some { s with pc := .check rest, buffer := s.buffer ++ [err] }
      else none
    | .exited => none
  | .takeQuit =>
    match s.pc with
    | .send _ _ => if s.quitClosed then some s.exit else none
    | _ => none
  | .receive =>
    match s.buffer with
    | value :: rest => some { s with buffer := rest, received := s.received ++ [value] }
    | [] => none
  | .abort => if s.quitClosed then none else some { s with quitClosed := true }

/-- A run: the events in order, `none` if one of them cannot happen. -/
def run (s : Routine χ ε) : List Event → Option (Routine χ ε)
  | [] => some s
  | e :: es => (next g s e).bind fun s' => run s' es

@[simp] theorem run_nil (s : Routine χ ε) : run g s [] = some s := rfl

theorem run_cons {s s' : Routine χ ε} {e : Event} (es : List Event) (hs : next g s e = some s') :
    run g s (e :: es) = run g s' es := by
  simp [run, hs]

theorem run_append (s : Routine χ ε) (es es' : List Event) :
    run g s (es ++ es') = (run g s es).bind fun s' => run g s' es' := by
  induction es generalizing s with
  | nil => rfl
  | cons e es ih => cases hs : next g s e <;> simp [run, hs, ih]

/-- Everything one step can do, with its guard. -/
theorem next_eq_some {s s' : Routine χ ε} {e : Event} (hs : next g s e = some s') :
    (e = .advance ∧ s.pc = .check [] ∧ s' = s.exit) ∨
    (∃ header rest, e = .advance ∧ s.pc = .check (header :: rest) ∧
      (s.quitClosed = true ∧ s' = s.exit ∨
        s.quitClosed = false ∧ s' = { s with pc := .verify header rest })) ∨
    (∃ header rest, e = .advance ∧ s.pc = .verify header rest ∧
      s' = { s with pc := .send (g.verify header).2 rest,
                    calls := s.calls ++ (g.verify header).1 }) ∨
    (∃ err rest, e = .advance ∧ s.pc = .send err rest ∧ s.buffer.length < g.headers.length ∧
      s' = { s with pc := .check rest, buffer := s.buffer ++ [err] }) ∨
    (∃ err rest, e = .takeQuit ∧ s.pc = .send err rest ∧ s.quitClosed = true ∧ s' = s.exit) ∨
    (∃ value rest, e = .receive ∧ s.buffer = value :: rest ∧
      s' = { s with buffer := rest, received := s.received ++ [value] }) ∨
    (e = .abort ∧ s.quitClosed = false ∧ s' = { s with quitClosed := true }) := by
  cases e <;> simp only [next] at hs
  case advance =>
    split at hs
    · exact .inl ⟨rfl, ‹_›, (Option.some.inj hs).symm⟩
    · rename_i header rest hpc
      cases hq : s.quitClosed <;> simp only [hq, if_true, if_false, Bool.false_eq_true] at hs
      · exact .inr (.inl ⟨header, rest, rfl, hpc, .inr ⟨rfl, (Option.some.inj hs).symm⟩⟩)
      · exact .inr (.inl ⟨header, rest, rfl, hpc, .inl ⟨rfl, (Option.some.inj hs).symm⟩⟩)
    · exact .inr (.inr (.inl ⟨_, _, rfl, ‹_›, (Option.some.inj hs).symm⟩))
    · split at hs
      · exact .inr (.inr (.inr (.inl ⟨_, _, rfl, ‹_›, ‹_›, (Option.some.inj hs).symm⟩)))
      · cases hs
    · cases hs
  case takeQuit =>
    split at hs
    · split at hs
      · exact .inr (.inr (.inr (.inr (.inl ⟨_, _, rfl, ‹_›, ‹_›, (Option.some.inj hs).symm⟩))))
      · cases hs
    · cases hs
  case receive =>
    split at hs
    · exact .inr (.inr (.inr (.inr (.inr (.inl ⟨_, _, rfl, ‹_›, (Option.some.inj hs).symm⟩)))))
    · cases hs
  case abort =>
    cases hq : s.quitClosed <;> simp only [hq, if_true, if_false, Bool.false_eq_true] at hs
    · exact .inr (.inr (.inr (.inr (.inr (.inr ⟨rfl, rfl, (Option.some.inj hs).symm⟩)))))
    · cases hs

/-! ### The invariant of every run -/

/-- The values sent on `results` so far, received or still buffered, in order. -/
def Routine.sent (s : Routine χ ε) : List GoError := s.received ++ s.buffer

/-- The verdicts `VerifyHeader` gives the headers `hs`, in order. -/
def Launch.verdicts (hs : List (Header χ)) : List GoError :=
  hs.map fun header => (g.verify header).2

/-- The invocations `VerifyHeader` makes for the headers `hs`, in order. -/
def Launch.callsFor (hs : List (Header χ)) : List (ε × Call χ) :=
  hs.flatMap fun header => (g.verify header).1

/-- Where the goroutine stands once the headers `done` are verified and their verdicts sent. -/
def Launch.At (done : List (Header χ)) (s : Routine χ ε) : Prop :=
  match s.pc with
  | .check rest => g.headers = done ++ rest ∧ s.calls = g.callsFor done ∧ s.resultsCloses = 0
  | .verify header rest =>
    g.headers = done ++ header :: rest ∧ s.calls = g.callsFor done ∧ s.resultsCloses = 0
  | .send err rest => ∃ header, g.headers = done ++ header :: rest ∧ err = (g.verify header).2 ∧
      s.calls = g.callsFor (done ++ [header]) ∧ s.resultsCloses = 0
  | .exited => s.resultsCloses = 1 ∧ ∃ rest, g.headers = done ++ rest ∧
      (rest = [] ∨ s.quitClosed = true) ∧
      (s.calls = g.callsFor done ∨ ∃ header, rest.head? = some header ∧
        s.calls = g.callsFor (done ++ [header]))

/-- The invariant: the verdicts of a prefix `done` of the batch were sent, in order. -/
def Launch.Inv (s : Routine χ ε) : Prop := ∃ done, s.sent = g.verdicts done ∧ g.At done s

/-- One `VerifyHeader` call makes exactly one sub-engine invocation. -/
theorem verify_calls_length (header : Header χ) : (g.verify header).1.length = 1 := by
  unfold Launch.verify verifyHeader
  dsimp only
  split <;> rfl

theorem callsFor_append (hs hs' : List (Header χ)) :
    g.callsFor (hs ++ hs') = g.callsFor hs ++ g.callsFor hs' := by
  simp [Launch.callsFor]

theorem callsFor_length (hs : List (Header χ)) : (g.callsFor hs).length = hs.length := by
  induction hs with
  | nil => rfl
  | cons header hs ih =>
    rw [← List.singleton_append, callsFor_append, List.length_append, ih]
    simp [Launch.callsFor, verify_calls_length, Nat.add_comm]

/-- `At` reads only the position, the calls, the close count, and whether `quit`
is closed, the last monotonically. -/
theorem at_frame {done : List (Header χ)} {s s' : Routine χ ε} (hat : g.At done s)
    (hpc : s'.pc = s.pc) (hcalls : s'.calls = s.calls) (hcl : s'.resultsCloses = s.resultsCloses)
    (hq : s.quitClosed = true → s'.quitClosed = true) : g.At done s' := by
  unfold Launch.At at hat ⊢
  rw [hpc, hcalls, hcl]
  cases hp : s.pc <;> rw [hp] at hat
  case exited =>
    obtain ⟨h1, rest, h2, h3, h4⟩ := hat
    exact ⟨h1, rest, h2, h3.imp_right hq, h4⟩
  all_goals exact hat

theorem inv_start : g.Inv g.start :=
  ⟨[], rfl, by simp [Launch.At, Launch.start, Launch.callsFor]⟩

/-- One step of either party keeps the invariant. -/
theorem inv_next {s s' : Routine χ ε} {e : Event} (hinv : g.Inv s) (hs : next g s e = some s') :
    g.Inv s' := by
  obtain ⟨done, hsent, hat⟩ := hinv
  rcases next_eq_some g hs with
    ⟨-, hpc, rfl⟩ | ⟨header, rest, -, hpc, ⟨hq, rfl⟩ | ⟨-, rfl⟩⟩ | ⟨header, rest, -, hpc, rfl⟩ |
    ⟨err, rest, -, hpc, -, rfl⟩ | ⟨err, rest, -, hpc, hq, rfl⟩ | ⟨value, rest, -, hb, rfl⟩ |
    ⟨-, -, rfl⟩
  · -- the range ends: return
    simp only [Launch.At, hpc, List.append_nil] at hat
    exact ⟨done, hsent, by simp [Launch.At, Routine.exit, hat.2.2], [], by simp [hat.1],
      .inl rfl, .inl hat.2.1⟩
  · -- `quit` is closed at the loop head: return
    simp only [Launch.At, hpc] at hat
    exact ⟨done, hsent, by simp [Launch.At, Routine.exit, hat.2.2], header :: rest, hat.1,
      .inr hq, .inl hat.2.1⟩
  · -- the `default` branch
    simp only [Launch.At, hpc] at hat
    exact ⟨done, hsent, hat⟩
  · -- `VerifyHeader` returns the verdict
    simp only [Launch.At, hpc] at hat
    exact ⟨done, hsent, header, hat.1, rfl,
      by rw [hat.2.1, callsFor_append]; simp [Launch.callsFor], hat.2.2⟩
  · -- the send finds room
    simp only [Launch.At, hpc] at hat
    obtain ⟨header, hh, rfl, hcalls, hcl⟩ := hat
    refine ⟨done ++ [header], ?_, by simpa [Launch.At] using ⟨hh, hcalls, hcl⟩⟩
    simp only [Routine.sent] at hsent ⊢
    simp [← List.append_assoc, hsent, Launch.verdicts]
  · -- the `quit` case of the inner select: return
    simp only [Launch.At, hpc] at hat
    obtain ⟨header, hh, rfl, hcalls, hcl⟩ := hat
    exact ⟨done, hsent, by simp [Launch.At, Routine.exit, hcl], header :: rest, hh, .inr hq,
      .inr ⟨header, rfl, hcalls⟩⟩
  · -- the caller receives
    refine ⟨done, ?_, at_frame g hat rfl rfl rfl id⟩
    simpa [Routine.sent, hb] using hsent
  · -- the caller closes `quit`
    exact ⟨done, hsent, at_frame g hat rfl rfl rfl fun _ => rfl⟩

/-- Every run keeps the invariant. -/
theorem inv_run {s s' : Routine χ ε} (es : List Event) (hinv : g.Inv s)
    (hrun : run g s es = some s') :
    g.Inv s' := by
  induction es generalizing s with
  | nil => cases hrun; exact hinv
  | cons e es ih =>
    cases hs : next g s e with
    | none => simp [run, hs] at hrun
    | some s₁ => exact ih (inv_next g hinv hs) (by rwa [run_cons g es hs] at hrun)

/-! ### What the invariant gives at every reachable state -/

theorem done_isPrefix_headers {done : List (Header χ)} {s : Routine χ ε} (hat : g.At done s) :
    done <+: g.headers := by
  unfold Launch.At at hat
  split at hat
  · exact ⟨_, hat.1.symm⟩
  · exact ⟨_, hat.1.symm⟩
  · obtain ⟨_, hh, -⟩ := hat
    exact ⟨_, hh.symm⟩
  · obtain ⟨-, _, hh, -⟩ := hat
    exact ⟨_, hh.symm⟩

/-- What was sent is the verdicts of the first headers, in order. -/
theorem sent_isPrefix_verdicts {s : Routine χ ε} (hinv : g.Inv s) :
    s.sent <+: g.verdicts g.headers := by
  obtain ⟨done, hsent, hat⟩ := hinv
  rw [hsent]
  exact (done_isPrefix_headers g hat).map _

theorem resultsCloses_le_one {s : Routine χ ε} (hinv : g.Inv s) : s.resultsCloses ≤ 1 := by
  obtain ⟨done, -, hat⟩ := hinv
  unfold Launch.At at hat
  split at hat <;> omega

theorem resultsCloses_of_exited {s : Routine χ ε} (hinv : g.Inv s) (hex : s.pc = .exited) :
    s.resultsCloses = 1 := by
  obtain ⟨done, -, hat⟩ := hinv
  simp only [Launch.At, hex] at hat
  exact hat.1

/-- At the send, `results` has room: what is buffered is at most what was sent, which is
less than the batch. -/
theorem send_has_room {s : Routine χ ε} (hinv : g.Inv s) {err : GoError} {rest : List (Header χ)}
    (hpc : s.pc = .send err rest) : s.buffer.length < g.headers.length := by
  obtain ⟨done, hsent, hat⟩ := hinv
  simp only [Launch.At, hpc] at hat
  obtain ⟨_, hh, -⟩ := hat
  have hlen := congrArg List.length hsent
  simp only [Routine.sent, Launch.verdicts, List.length_append, List.length_map] at hlen
  rw [hh, List.length_append, List.length_cons]
  omega

/-- At most one `VerifyHeader` call per header. -/
theorem calls_length_le {s : Routine χ ε} (hinv : g.Inv s) : s.calls.length ≤ g.headers.length := by
  obtain ⟨done, -, hat⟩ := hinv
  have hpre := (done_isPrefix_headers g hat).length_le
  unfold Launch.At at hat
  split at hat
  · rw [hat.2.1, callsFor_length]; exact hpre
  · rw [hat.2.1, callsFor_length]; exact hpre
  · obtain ⟨_, hh, -, hcalls, -⟩ := hat
    rw [hcalls, callsFor_length, hh]
    simp
  · obtain ⟨-, rest, hh, -, hcalls | ⟨header, hhead, hcalls⟩⟩ := hat
    · rw [hcalls, callsFor_length]; exact hpre
    · rw [hcalls, callsFor_length, hh]
      cases rest with
      | nil => cases hhead
      | cons _ _ => simp

/-- The goroutine is never blocked before it returns. -/
theorem advance_enabled {s : Routine χ ε} (hinv : g.Inv s) (hex : s.pc ≠ .exited) :
    ∃ s', next g s .advance = some s' := by
  cases hpc : s.pc with
  | check rest => cases rest <;> simp [next, hpc]; split <;> simp
  | verify header rest => simp [next, hpc]
  | send err rest => simp [next, hpc, send_has_room g hinv hpc]
  | exited => exact absurd hpc hex

/-! ### Termination -/

/-- The goroutine's steps left before it returns: at most three once `quit` is closed. -/
def Routine.stepsLeft (s : Routine χ ε) : ℕ :=
  match s.pc with
  | .check rest => if s.quitClosed then 1 else 3 * rest.length + 1
  | .verify _ rest => if s.quitClosed then 3 else 3 * rest.length + 3
  | .send _ rest => if s.quitClosed then 2 else 3 * rest.length + 2
  | .exited => 0

theorem stepsLeft_start : g.start.stepsLeft = 3 * g.headers.length + 1 := by
  simp [Launch.start, Routine.stepsLeft]

theorem stepsLeft_le_three {s : Routine χ ε} (hq : s.quitClosed = true) : s.stepsLeft ≤ 3 := by
  unfold Routine.stepsLeft
  split <;> simp [hq]

/-- The goroutine's own events. -/
def Event.byRoutine : Event → Bool
  | .advance => true
  | .takeQuit => true
  | _ => false

/-- A goroutine step uses one of its steps left; the caller's steps use none. -/
theorem stepsLeft_next {s s' : Routine χ ε} {e : Event} (hs : next g s e = some s') :
    (if e.byRoutine then 1 else 0) + s'.stepsLeft ≤ s.stepsLeft := by
  rcases next_eq_some g hs with
    ⟨rfl, hpc, rfl⟩ | ⟨header, rest, rfl, hpc, ⟨hq, rfl⟩ | ⟨hq, rfl⟩⟩ |
    ⟨header, rest, rfl, hpc, rfl⟩ |
    ⟨err, rest, rfl, hpc, -, rfl⟩ | ⟨err, rest, rfl, hpc, hq, rfl⟩ | ⟨value, rest, rfl, -, rfl⟩ |
    ⟨rfl, hq, rfl⟩
  · simp only [Routine.stepsLeft, Routine.exit, hpc, Event.byRoutine, if_true]
    split <;> simp
  · simp [Routine.stepsLeft, Routine.exit, hpc, Event.byRoutine, hq]
  · simp [Routine.stepsLeft, hpc, Event.byRoutine, hq]
    omega
  · simp only [Routine.stepsLeft, hpc, Event.byRoutine, if_true]
    split <;> omega
  · simp only [Routine.stepsLeft, hpc, Event.byRoutine, if_true]
    split <;> omega
  · simp [Routine.stepsLeft, Routine.exit, hpc, Event.byRoutine, hq]
  · simp [Routine.stepsLeft, Event.byRoutine]
  · cases hpc : s.pc <;> simp [Routine.stepsLeft, Event.byRoutine, hpc, hq]

theorem stepsLeft_run {s s' : Routine χ ε} (es : List Event) (hrun : run g s es = some s') :
    es.countP Event.byRoutine + s'.stepsLeft ≤ s.stepsLeft := by
  induction es generalizing s with
  | nil => cases hrun; simp
  | cons e es ih =>
    cases hs : next g s e with
    | none => simp [run, hs] at hrun
    | some s₁ =>
      have h₁ := stepsLeft_next g hs
      have h₂ := ih (by rwa [run_cons g es hs] at hrun)
      rw [List.countP_cons]
      split at h₁ <;> simp_all <;> omega

/-- From any reachable state the goroutine alone returns, closing `results`, within
its steps left. -/
theorem exits_within {s : Routine χ ε} (hinv : g.Inv s) :
    ∃ k ≤ s.stepsLeft, ∃ s', run g s (List.replicate k .advance) = some s' ∧
      s'.pc = .exited ∧ s'.resultsCloses = 1 := by
  obtain ⟨n, hn⟩ : ∃ n, s.stepsLeft = n := ⟨_, rfl⟩
  induction n using Nat.strong_induction_on generalizing s with
  | _ n ih =>
    by_cases hex : s.pc = .exited
    · exact ⟨0, Nat.zero_le _, s, rfl, hex, resultsCloses_of_exited g hinv hex⟩
    · obtain ⟨s', hs'⟩ := advance_enabled g hinv hex
      have hlt := stepsLeft_next g hs'
      simp only [Event.byRoutine, if_true] at hlt
      obtain ⟨k, hk, s'', hrun, hpc, hcl⟩ :=
        ih s'.stepsLeft (by omega) (inv_next g hinv hs') rfl
      exact ⟨k + 1, by omega, s'', by rw [List.replicate_succ, run_cons g _ hs']; exact hrun,
        hpc, hcl⟩

/-! ### After the abort -/

/-- `VerifyHeader` calls the goroutine may still start once `quit` is closed. -/
def Routine.callsLeft (s : Routine χ ε) : ℕ :=
  match s.pc with
  | .verify _ _ => 1
  | _ => 0

/-- Sends the goroutine may still make once `quit` is closed. -/
def Routine.sendsLeft (s : Routine χ ε) : ℕ :=
  match s.pc with
  | .verify _ _ => 1
  | .send _ _ => 1
  | _ => 0

theorem callsLeft_le_one (s : Routine χ ε) : s.callsLeft ≤ 1 := by
  unfold Routine.callsLeft; split <;> omega

theorem sendsLeft_le_one (s : Routine χ ε) : s.sendsLeft ≤ 1 := by
  unfold Routine.sendsLeft; split <;> omega

/-- With `quit` closed, a step never adds to the calls and sends made plus those left. -/
theorem budget_next {s s' : Routine χ ε} {e : Event} (hq : s.quitClosed = true)
    (hs : next g s e = some s') :
    s'.quitClosed = true ∧ s'.calls.length + s'.callsLeft ≤ s.calls.length + s.callsLeft ∧
      s'.sent.length + s'.sendsLeft ≤ s.sent.length + s.sendsLeft := by
  rcases next_eq_some g hs with
    ⟨-, hpc, rfl⟩ | ⟨header, rest, -, hpc, ⟨-, rfl⟩ | ⟨hq', rfl⟩⟩ | ⟨header, rest, -, hpc, rfl⟩ |
    ⟨err, rest, -, hpc, -, rfl⟩ | ⟨err, rest, -, hpc, -, rfl⟩ | ⟨value, rest, -, hb, rfl⟩ |
    ⟨-, hq', rfl⟩
  · simp [Routine.exit, Routine.callsLeft, Routine.sendsLeft, Routine.sent, hpc, hq]
  · simp [Routine.exit, Routine.callsLeft, Routine.sendsLeft, Routine.sent, hpc, hq]
  · simp [hq] at hq'
  · simp [Routine.callsLeft, Routine.sendsLeft, Routine.sent, hpc, hq, verify_calls_length]
  · simp [Routine.callsLeft, Routine.sendsLeft, Routine.sent, hpc, hq]
    omega
  · simp [Routine.exit, Routine.callsLeft, Routine.sendsLeft, Routine.sent, hpc, hq]
  · simp [Routine.callsLeft, Routine.sendsLeft, Routine.sent, hb, hq]
  · simp [hq] at hq'

theorem budget_run {s s' : Routine χ ε} (es : List Event) (hq : s.quitClosed = true)
    (hrun : run g s es = some s') :
    s'.quitClosed = true ∧ s'.calls.length + s'.callsLeft ≤ s.calls.length + s.callsLeft ∧
      s'.sent.length + s'.sendsLeft ≤ s.sent.length + s.sendsLeft := by
  induction es generalizing s with
  | nil => cases hrun; exact ⟨hq, le_rfl, le_rfl⟩
  | cons e es ih =>
    cases hs : next g s e with
    | none => simp [run, hs] at hrun
    | some s₁ =>
      obtain ⟨hq₁, hc₁, hs₁⟩ := budget_next g hq hs
      obtain ⟨hq', hc, hsd⟩ := ih hq₁ (by rwa [run_cons g es hs] at hrun)
      exact ⟨hq', hc.trans hc₁, hsd.trans hs₁⟩

/-! ### Without an abort -/

theorem quitClosed_next {s s' : Routine χ ε} {e : Event} (he : e ≠ .abort)
    (hs : next g s e = some s') : s'.quitClosed = s.quitClosed := by
  rcases next_eq_some g hs with
    ⟨-, -, rfl⟩ | ⟨-, -, -, -, ⟨-, rfl⟩ | ⟨-, rfl⟩⟩ | ⟨-, -, -, -, rfl⟩ | ⟨-, -, -, -, -, rfl⟩ |
    ⟨-, -, -, -, -, rfl⟩ | ⟨-, -, -, -, rfl⟩ | ⟨rfl, -, -⟩
  all_goals first | rfl | exact absurd rfl he

theorem quitClosed_run {s s' : Routine χ ε} (es : List Event) (hno : Event.abort ∉ es)
    (hrun : run g s es = some s') : s'.quitClosed = s.quitClosed := by
  induction es generalizing s with
  | nil => cases hrun; rfl
  | cons e es ih =>
    cases hs : next g s e with
    | none => simp [run, hs] at hrun
    | some s₁ =>
      rw [List.mem_cons, not_or] at hno
      rw [ih hno.2 (by rwa [run_cons g es hs] at hrun), quitClosed_next g (Ne.symm hno.1) hs]

/-- Returned without an abort, the goroutine has verified the whole batch and sent
every verdict, in order. -/
theorem complete_of_exited {s : Routine χ ε} (hinv : g.Inv s) (hq : s.quitClosed = false)
    (hex : s.pc = .exited) :
    s.sent = g.verdicts g.headers ∧ s.calls = g.callsFor g.headers := by
  obtain ⟨done, hsent, hat⟩ := hinv
  simp only [Launch.At, hex, hq] at hat
  obtain ⟨-, rest, hh, rfl | hfalse, hcalls | ⟨header, hhead, -⟩⟩ := hat
  · rw [List.append_nil] at hh
    exact ⟨hh ▸ hsent, hh ▸ hcalls⟩
  · cases hhead
  all_goals cases hfalse

/-- A header of 64-bit number is verified by its era engine alone. -/
theorem verify_eq {header : Header χ} (hn : header.number < 2 ^ 64) :
    g.verify header = ([(g.hybrid.engineFor header.number, .verifyHeader g.chain header)],
      g.answer (g.hybrid.engineFor header.number) (.verifyHeader g.chain header)) := by
  rw [Launch.verify, verifyHeader_eq g.hybrid g.chain hn]
  rfl

/-! ### The straddling path as a whole -/

/-- Sub-engines that accept every header and answer zero values, as the tests' mocks do. -/
def acceptAll : (e : String) → (c : Call Host.bare) → c.Ret
  | _, .author _ => (⟨List.replicate 20 0, rfl⟩, none)
  | _, .verifyHeader _ _ => none
  | _, .verifyHeaders _ headers => headers.map fun _ => none
  | _, .verifyUncles _ _ => none
  | _, .prepare _ header => (header, none)
  | _, .finalize _ header state _ => (header, state)
  | _, .finalizeAndAssemble _ header state _ _ => (header, state, none, none)
  | _, .seal _ _ _ _ => none
  | _, .sealHash _ => ()
  | _, .calcDifficulty _ _ _ => 1
  | _, .close => none

/-- Scenario S4 of the specification: blocks 50, 99, 100 and 101 with the transition at 100. -/
def straddleLaunch : Launch Host.bare String :=
  ⟨⟨"pos", "poa", 100, defaultInitialSigners⟩, (), [⟨50, [], ()⟩, ⟨99, [], ()⟩, ⟨100, [], ()⟩,
    ⟨101, [], ()⟩], acceptAll⟩

/-- On every run of the straddling path, whatever the caller does (reading all, some or none
of the results, closing `quit` or never), the goroutine never waits on `results`: at each
send the buffer has room. It starts at most one `VerifyHeader` call per header, takes at
most `3 * len(headers) + 1` steps, and from any point returns and closes `results` on its
own. -/
theorem verifier_never_blocks (g : Launch χ ε) {es : List Event} {s : Routine χ ε}
    (hrun : run g g.start es = some s) :
    (∀ err rest, s.pc = .send err rest → s.buffer.length < g.headers.length) ∧
    s.calls.length ≤ g.headers.length ∧
    es.countP Event.byRoutine ≤ 3 * g.headers.length + 1 ∧
    ∃ k ≤ 3 * g.headers.length + 1, ∃ s', run g s (List.replicate k .advance) = some s' ∧
      s'.pc = .exited ∧ s'.resultsCloses = 1 := by
  have hinv := inv_run g es (inv_start g) hrun
  have hsteps := stepsLeft_run g es hrun
  rw [stepsLeft_start] at hsteps
  obtain ⟨k, hk, s', hrun', hex, hcl⟩ := exits_within g hinv
  exact ⟨fun _ _ hpc => send_has_room g hinv hpc, calls_length_le g hinv, by omega,
    k, by omega, s', hrun', hex, hcl⟩

theorem verifier_never_blocks_on_s4 :
    ∃ s, run straddleLaunch straddleLaunch.start [.advance, .advance, .advance] = some s ∧
      s.calls.length ≤ 4 :=
  ⟨_, rfl, (@verifier_never_blocks _ _ straddleLaunch [.advance, .advance, .advance] _ rfl).2.1⟩

/-- On every interleaving of the goroutine with a caller that may close `quit` at any
moment, what `results` delivers is, in order, a prefix of the verdicts of
`VerifyHeader(chain, headers[i])`, and `results` is closed at most once. From any state
where `quit` is closed, at most one more `VerifyHeader` call starts and at most one more
value is sent, and the goroutine returns, closing `results`, within three of its steps. -/
theorem verifier_abort (g : Launch χ ε) {es es' : List Event} {s₁ s₂ : Routine χ ε}
    (h₁ : run g g.start es = some s₁) (h₂ : run g s₁ es' = some s₂) :
    s₂.received <+: s₂.sent ∧ s₂.sent <+: g.verdicts g.headers ∧ s₂.resultsCloses ≤ 1 ∧
    (s₁.quitClosed = true →
      s₂.calls.length ≤ s₁.calls.length + 1 ∧ s₂.sent.length ≤ s₁.sent.length + 1 ∧
      ∃ k ≤ 3, ∃ s₃, run g s₂ (List.replicate k .advance) = some s₃ ∧
        s₃.pc = .exited ∧ s₃.resultsCloses = 1) := by
  have hinv₁ := inv_run g es (inv_start g) h₁
  have hinv₂ := inv_run g es' hinv₁ h₂
  refine ⟨⟨_, rfl⟩, sent_isPrefix_verdicts g hinv₂, resultsCloses_le_one g hinv₂, fun hq => ?_⟩
  obtain ⟨hq₂, hcalls, hsent⟩ := budget_run g es' hq h₂
  obtain ⟨k, hk, s₃, hrun, hex, hcl⟩ := exits_within g hinv₂
  have := callsLeft_le_one s₁
  have := sendsLeft_le_one s₁
  exact ⟨by omega, by omega, k, hk.trans (stepsLeft_le_three hq₂), s₃, hrun, hex, hcl⟩

theorem verifier_abort_on_s4 :
    ∃ s₁ s₂, run straddleLaunch straddleLaunch.start [.advance, .advance, .abort] = some s₁ ∧
      run straddleLaunch s₁ [.advance, .advance] = some s₂ ∧ s₁.quitClosed = true ∧
      s₂.calls.length ≤ s₁.calls.length + 1 :=
  ⟨_, _, rfl, rfl, rfl, ((@verifier_abort _ _ straddleLaunch [.advance, .advance, .abort]
    [.advance, .advance] _ _ rfl rfl).2.2.2 rfl).1⟩

theorem callsFor_of_fits {hs : List (Header χ)} (hfit : Fits hs) :
    g.callsFor hs =
      hs.map fun header => (g.hybrid.engineFor header.number, .verifyHeader g.chain header) := by
  induction hs with
  | nil => rfl
  | cons header rest ih =>
    rw [← List.singleton_append, callsFor_append, ih fun x hx => hfit x (List.mem_cons_of_mem _ hx)]
    simp [Launch.callsFor, verify_eq g (hfit header (List.mem_cons_self _ _))]

theorem verdicts_of_fits {hs : List (Header χ)} (hfit : Fits hs) :
    g.verdicts hs = hs.map fun header =>
      g.answer (g.hybrid.engineFor header.number) (.verifyHeader g.chain header) :=
  List.map_congr_left fun x hx => by rw [verify_eq g (hfit x hx)]

/-- `VerifyHeaders` on an ascending batch of 64-bit headers, with a caller that never closes
`quit`: every header is handed to the engine of its era and to no other, once, in order, on
every path and for every pair of sub-engines. On the straddling path the goroutine, in every
interleaving with the caller, sends exactly one verdict per header, in order, the era
engine's `VerifyHeader` verdict, and it does return and close `results`. Where a bulk path
forwards the batch, one verdict per header is delivered, the era engine's, as long as the
engine it forwards to keeps its own batch contract for that batch. -/
theorem verifyHeaders_batch (g : Launch χ ε) (hfit : Fits g.headers)
    (hasc : Ascending g.headers) :
    handedOver ((verifyHeaders g.hybrid g.chain g.headers).run g.answer).1 =
      g.headers.map (fun header => (g.hybrid.engineFor header.number, header)) ∧
    (BulkContract g.hybrid g.answer g.chain g.headers →
      ((verifyHeaders g.hybrid g.chain g.headers).run g.answer).2 =
        g.headers.map (fun header =>
          g.answer (g.hybrid.engineFor header.number) (.verifyHeader g.chain header))) ∧
    (∀ es s, Event.abort ∉ es → run g g.start es = some s → s.pc = .exited →
      handedOver s.calls = g.headers.map (fun header => (g.hybrid.engineFor header.number, header)) ∧
      s.sent = g.headers.map (fun header =>
        g.answer (g.hybrid.engineFor header.number) (.verifyHeader g.chain header))) ∧
    ∃ k ≤ 3 * g.headers.length + 1, ∃ s, run g g.start (List.replicate k .advance) = some s ∧
      s.pc = .exited ∧ s.resultsCloses = 1 := by
  refine ⟨verifyHeaders_handedOver g.hybrid g.answer g.chain hfit hasc,
    verifyHeaders_verdicts g.hybrid g.answer g.chain hfit hasc, fun es s hno hrun hex => ?_,
    stepsLeft_start g ▸ exits_within g (inv_start g)⟩
  have hinv := inv_run g es (inv_start g) hrun
  obtain ⟨hsent, hcalls⟩ := complete_of_exited g hinv (quitClosed_run g es hno hrun) hex
  rw [hcalls, callsFor_of_fits g hfit, handedOver_map_verifyHeader, hsent, verdicts_of_fits g hfit]
  exact ⟨rfl, rfl⟩

theorem verifyHeaders_batch_on_s4 :
    handedOver ((verifyHeaders straddleLaunch.hybrid () straddleLaunch.headers).run acceptAll).1 =
      [("pos", ⟨50, [], ()⟩), ("pos", ⟨99, [], ()⟩), ("poa", ⟨100, [], ()⟩), ("poa", ⟨101, [], ()⟩)] ∧
    ((verifyHeaders straddleLaunch.hybrid () straddleLaunch.headers).run acceptAll).2 =
      [none, none, none, none] :=
  have hc := verifyHeaders_batch straddleLaunch (by unfold Fits; decide)
    (by unfold Ascending; decide)
  ⟨hc.1, hc.2.1 fun _ _ => rfl⟩

end HybridConsensus.VerifierRoutine
