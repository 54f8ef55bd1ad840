import HybridConsensus.BatchVerification

/-!
# The hybrid as a consensus engine over a run of calls

`handle` is the whole `consensus.Engine` surface of `Hybrid`: a call, the
clock reading at which it is made and the logging state give the new
logging state and the program run against the sub-engines. `serve` threads
the logging state through any sequence of calls.

Over every run, whatever the earlier calls, the logging fields and the
clock, each call that concerns one header or block (`Prepare` on the
transition block apart) is forwarded unchanged to the era engine of its
number, and its answer is returned unchanged.
-/

namespace HybridConsensus.HybridEngine

open EngineInterface EngineSelection Delegation BatchVerification

variable {χ : Host} {ε : Type} (h : Hybrid ε)

/-- Every method of `Hybrid`, at clock reading `now`, from logging state `d`. -/
def handle (now : Time) : (c : Call χ) → Diag → Diag × Prog χ ε c.Ret
  | .author header, d => (d, author h header)
  | .verifyHeader chain header, d => (d, verifyHeader h chain header)
  | .verifyHeaders chain headers, d => (d, verifyHeaders h chain headers)
  | .verifyUncles chain block, d => (d, verifyUncles h chain block)
  | .prepare chain header, d => prepare h now chain header d
  | .finalize chain header state body, d => finalize h now chain header state body d
  | .finalizeAndAssemble chain header state body receipts, d =>
    finalizeAndAssemble h now chain header state body receipts d
  | .seal chain block results stop, d => Delegation.seal h now chain block results stop d
  | .sealHash header, d => sealHash h now header d
  | .calcDifficulty chain time parent, d => calcDifficulty h now chain time parent d
  | .close, d => (d, close h)

/-- A run: each call with the clock reading it is made at, in order, from logging
state `d`; the final logging state and the program of every call. -/
def serve : Diag → List (Time × Call χ) → Diag × List (Σ c : Call χ, Prog χ ε c.Ret)
  | d, [] => (d, [])
  | d, (now, c) :: rest =>
    let step := handle h now c d
    ((serve step.1 rest).1, ⟨c, step.2⟩ :: (serve step.1 rest).2)

/-- The number a single-header or single-block call is routed by. -/
def Call.routedNumber : Call χ → Option ℕ
  | .author header => some header.number
  | .verifyHeader _ header => some header.number
  | .verifyUncles _ block => some block.number
  | .prepare _ header => some header.number
  | .finalize _ header _ _ => some header.number
  | .finalizeAndAssemble _ header _ _ _ => some header.number
  | .seal _ block _ _ => some block.number
  | .sealHash header => some header.number
  | _ => none

/-- `Prepare`, the one single-header call with a branch of its own. -/
def Call.isPrepare : Call χ → Bool
  | .prepare _ _ => true
  | _ => false

/-- One call: a routed call off the transition `Prepare` is forwarded unchanged to
the era engine of its number, whatever the logging state and the clock. -/
theorem handle_snd_routed (now : Time) (c : Call χ) (d : Diag) {n : ℕ}
    (hc : Call.routedNumber c = some n) (hn : n < 2 ^ 64)
    (hprep : Call.isPrepare c = true → n ≠ h.transitionBlock.toNat) :
    (handle h now c d).2 = Prog.forward (h.engineFor n) c := by
  cases c <;> simp only [Call.routedNumber, Option.some.injEq, reduceCtorEq] at hc <;> subst hc
  case author => exact author_eq h hn
  case verifyHeader => exact verifyHeader_eq h _ hn
  case verifyUncles => exact verifyUncles_eq h _ hn
  case prepare chain header =>
    rw [handle, prepare_of_ne h now chain hn (hprep rfl)]
    exact selectAndForward_snd h now hn _ d
  all_goals exact selectAndForward_snd h now hn _ d

/-- Over every run of calls on the hybrid, in any order and from any logging state,
each single-header or single-block call (`Prepare` at the transition height apart)
whose number fits in 64 bits is forwarded, with all its arguments, to the era
engine of that number alone, and that engine's answer is returned unchanged. -/
theorem serve_routes_by_number (d : Diag) (trace : List (Time × Call χ)) :
    ∀ p ∈ (serve h d trace).2, ∀ n, Call.routedNumber p.1 = some n → n < 2 ^ 64 →
      (Call.isPrepare p.1 = true → n ≠ h.transitionBlock.toNat) →
        p.2 = Prog.forward (h.engineFor n) p.1 := by
  induction trace generalizing d with
  | nil => intro p hp; cases hp
  | cons call rest ih =>
    intro p hp n hc hn hprep
    rcases List.mem_cons.mp hp with rfl | hp
    · exact handle_snd_routed h call.1 call.2 d hc hn hprep
    · exact ih _ p hp n hc hn hprep

theorem serve_routes_author_at_fifty :
    (serve (⟨"pos", "poa", 100, defaultInitialSigners⟩ : Hybrid String) Diag.init
        [((0 : Time), Call.author (⟨50, [], ()⟩ : Header Host.bare))]).2 =
      [⟨Call.author ⟨50, [], ()⟩, Prog.forward "pos" (Call.author ⟨50, [], ()⟩)⟩] := by
  have hp := serve_routes_by_number (⟨"pos", "poa", 100, defaultInitialSigners⟩ : Hybrid String)
    Diag.init [((0 : Time), Call.author (⟨50, [], ()⟩ : Header Host.bare))] _
    (List.mem_singleton_self _) 50 rfl (by decide) (by decide)
  dsimp only at hp
  simp only [serve, hp]
  rfl

end HybridConsensus.HybridEngine
