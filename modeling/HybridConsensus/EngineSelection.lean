import HybridConsensus.EngineInterface
import Mathlib.Data.UInt

/-!
# The hybrid engine record and its engine selection

`Hybrid` holds the two sub-engines, the transition height and the initial
signers; `new` builds it and refuses a missing engine. `selectEngine` both
chooses a sub-engine and updates the three logging fields, which live in
`Diag` and are threaded through every call that selects; `selectEngineRun`
also gives the log lines it writes, those of `shouldUsePoA` included. The
choice is the pure era function `engineFor` of the block number, whatever
the logging fields and the clock hold. The read lock of `shouldUsePoA`
has no effect on any value and is not modelled.
-/

namespace HybridConsensus.EngineSelection

open EngineInterface

/-- `ErrMissingEngine`. -/
def errMissingEngine : Error := ⟨"missing consensus engine"⟩

/-- `defaultInitialSigners`: the three placeholder validators of the source. -/
def defaultInitialSigners : List Address :=
  [⟨[0x12, 0x34, 0x56, 0x78, 0x90, 0x12, 0x34, 0x56, 0x78, 0x90,
      0x12, 0x34, 0x56, 0x78, 0x90, 0x12, 0x34, 0x56, 0x78, 0x90], rfl⟩,
    ⟨[0x23, 0x45, 0x67, 0x89, 0x01, 0x23, 0x45, 0x67, 0x89, 0x01,
      0x23, 0x45, 0x67, 0x89, 0x01, 0x23, 0x45, 0x67, 0x89, 0x01], rfl⟩,
    ⟨[0x34, 0x56, 0x78, 0x90, 0x12, 0x34, 0x56, 0x78, 0x90, 0x12,
      0x34, 0x56, 0x78, 0x90, 0x12, 0x34, 0x56, 0x78, 0x90, 0x12], rfl⟩]

/-- `Hybrid` without its mutex and logging fields, which `Diag` carries. -/
structure Hybrid (ε : Type) where
  /-- Engine used before the transition. -/
  posEngine : ε
  /-- Engine used from the transition on. -/
  poaEngine : ε
  /-- Block number at which to switch from PoS to PoA. -/
  transitionBlock : UInt64
  /-- Signers written into the transition block. -/
  initialSigners : List Address

/-- `New`: a nil engine is refused; otherwise the signers are the hard-coded ones. -/
def new {ε : Type} (posEngine poaEngine : Option ε) (transitionBlock : UInt64) :
    Except Error (Hybrid ε) :=
  match posEngine, poaEngine with
  | none, _ => .error errMissingEngine
  | some _, none => .error errMissingEngine
  | some pos, some poa => .ok ⟨pos, poa, transitionBlock, defaultInitialSigners⟩

/-- `New` succeeds exactly when both engines are given, and then holds them, the transition
block as given (zero included) and the hard-coded signers. -/
theorem new_eq_ok_iff {ε : Type} (pos poa : Option ε) (transitionBlock : UInt64) (h : Hybrid ε) :
    new pos poa transitionBlock = .ok h ↔
      pos = some h.posEngine ∧ poa = some h.poaEngine ∧
        h.transitionBlock = transitionBlock ∧ h.initialSigners = defaultInitialSigners := by
  cases pos <;> cases poa <;> cases h <;> simp [new, eq_comm]

/-- `New` fails exactly when an engine is missing, and then with `ErrMissingEngine`. -/
theorem new_error_iff {ε : Type} (pos poa : Option ε) (transitionBlock : UInt64) (err : Error) :
    new pos poa transitionBlock = .error err ↔
      (pos = none ∨ poa = none) ∧ err = errMissingEngine := by
  cases pos <;> cases poa <;> simp [new, eq_comm]

/-- A `time.Time`, as nanoseconds since the Unix epoch. -/
abbrev Time := ℤ

/-- The zero `time.Time`, January 1 of year 1. -/
def zeroTime : Time := -62135596800 * 1000000000

/-- `10*time.Second`. -/
def logInterval : ℤ := 10 * 1000000000

/-- The fields `transitionLogged`, `lastLoggedEngine` and `lastLogTime`. -/
structure Diag where
  /-- The transition event has been logged. -/
  transitionLogged : Bool
  /-- `"PoS"` or `"PoA"` as last logged, `""` before any. -/
  lastLoggedEngine : String
  /-- When the engine in use was last logged. -/
  lastLogTime : Time

/-- The zero values a fresh `Hybrid` starts with. -/
def Diag.init : Diag := ⟨false, "", zeroTime⟩

/-- The log lines `selectEngine` writes, with the values that decide them. -/
inductive LogLine
  /-- `Consensus engine decision at transition boundary`, from `shouldUsePoA`. -/
  | boundary (blockNumber : UInt64) (usePoA : Bool)
  /-- `Consensus engine transition occurred`, with its `CONSENSUS TRANSITION` warning. -/
  | transition (blockNumber : UInt64)
  /-- `Using consensus engine`, written at clock reading `time`. -/
  | engineUse (blockNumber : UInt64) (engine : String) (time : Time)
  deriving DecidableEq, Repr

/-- `currentEngine`: the name `selectEngine` logs for its choice. -/
def engineName (usePoA : Bool) : String := if usePoA then "PoA" else "PoS"

/-- The rate limit of `Using consensus engine`: the engine changed since the last line, or
more than ten seconds passed. `now.Sub` saturates, which never changes this comparison. -/
def logsEngineUse (now : Time) (currentEngine : String) (d : Diag) : Bool :=
  d.lastLoggedEngine != currentEngine || decide (now - d.lastLogTime > logInterval)

/-- A header number that fits in 64 bits reads back unchanged through `Uint64()`. -/
theorem toNat_toUInt64 {n : ℕ} (hn : n < 2 ^ 64) : n.toUInt64.toNat = n :=
  Nat.mod_eq_of_lt hn

namespace Hybrid

variable {ε : Type} (h : Hybrid ε)

/-- `shouldUsePoA`: `blockNumber >= h.transitionBlock`. -/
def shouldUsePoA (blockNumber : UInt64) : Bool := decide (blockNumber ≥ h.transitionBlock)

/-- The boundary test of `shouldUsePoA`, in `uint64` arithmetic. -/
def atBoundary (blockNumber : UInt64) : Bool :=
  blockNumber == h.transitionBlock - 1 || blockNumber == h.transitionBlock ||
    blockNumber == h.transitionBlock + 1

/-- The test before the transition log line: the transition block, not yet logged. -/
def logsTransition (blockNumber : UInt64) (d : Diag) : Bool :=
  blockNumber == h.transitionBlock && !d.transitionLogged

/-- `selectEngine` at clock reading `now`, with everything it does: the logging fields it
sets (the transition flag at the transition block, the rate-limited engine fields), the
lines it writes, in order, and the engine it returns. -/
def selectEngineRun (now : Time) (blockNumber : UInt64) (d : Diag) : Diag × List LogLine × ε :=
  let usePoA := h.shouldUsePoA blockNumber
  let boundaryLines :=
    if h.atBoundary blockNumber then [LogLine.boundary blockNumber usePoA] else []
  let transition := h.logsTransition blockNumber d
  let d := if transition then { d with transitionLogged := true } else d
  let transitionLines := if transition then [LogLine.transition blockNumber] else []
  let currentEngine := engineName usePoA
  let engineUse := logsEngineUse now currentEngine d
  let d := if engineUse then { d with lastLoggedEngine := currentEngine, lastLogTime := now } else d
  let engineLines := if engineUse then [LogLine.engineUse blockNumber currentEngine now] else []
  (d, boundaryLines ++ transitionLines ++ engineLines, if usePoA then h.poaEngine else h.posEngine)

/-- `selectEngine`: the logging fields it leaves and the engine it returns. -/
def selectEngine (now : Time) (blockNumber : UInt64) (d : Diag) : Diag × ε :=
  ((h.selectEngineRun now blockNumber d).1, (h.selectEngineRun now blockNumber d).2.2)

/-- `selectEngineFromHeader`: `selectEngine(header.Number.Uint64())`. -/
def selectEngineFromHeader {χ : Host} (now : Time) (header : Header χ) (d : Diag) : Diag × ε :=
  h.selectEngine now header.number.toUInt64 d

/-- The era engine of block `n`: PoS strictly below the transition height, PoA from it. -/
def engineFor (n : ℕ) : ε := if n < h.transitionBlock.toNat then h.posEngine else h.poaEngine

theorem engineFor_of_lt {n : ℕ} (hn : n < h.transitionBlock.toNat) :
    h.engineFor n = h.posEngine := if_pos hn

theorem engineFor_of_le {n : ℕ} (hn : h.transitionBlock.toNat ≤ n) :
    h.engineFor n = h.poaEngine := if_neg (Nat.not_lt.mpr hn)

theorem shouldUsePoA_iff (blockNumber : UInt64) :
    h.shouldUsePoA blockNumber = true ↔ h.transitionBlock.toNat ≤ blockNumber.toNat :=
  decide_eq_true_iff

/-- The engine `selectEngine` returns is the era engine, for every logging state and clock. -/
@[simp] theorem selectEngine_snd (now : Time) (blockNumber : UInt64) (d : Diag) :
    (h.selectEngine now blockNumber d).2 = h.engineFor blockNumber.toNat := by
  show (if h.shouldUsePoA blockNumber then h.poaEngine else h.posEngine) = _
  by_cases hn : h.transitionBlock.toNat ≤ blockNumber.toNat
  · rw [if_pos ((h.shouldUsePoA_iff _).mpr hn), h.engineFor_of_le hn]
  · rw [if_neg (mt (h.shouldUsePoA_iff _).mp hn), h.engineFor_of_lt (Nat.lt_of_not_le hn)]

@[simp] theorem selectEngineFromHeader_snd {χ : Host} (now : Time) (header : Header χ)
    (d : Diag) : (h.selectEngineFromHeader now header d).2 =
      h.engineFor header.number.toUInt64.toNat :=
  h.selectEngine_snd now _ d

/-- The inline test `blockNumber < h.transitionBlock` of `Author`, `VerifyHeader` and
`VerifyUncles` picks the era engine too. -/
theorem inline_eq_engineFor (blockNumber : UInt64) :
    (if blockNumber < h.transitionBlock then h.posEngine else h.poaEngine) =
      h.engineFor blockNumber.toNat := by
  simp only [engineFor, UInt64.lt_def, BitVec.lt_def]
  rfl

end Hybrid

end HybridConsensus.EngineSelection
