import HybridConsensus.TransitionBlock

/-!
# Delegation of the single-call engine methods

Each method of `Hybrid` that handles one header or block is a program that
invokes one method of one sub-engine with its own arguments and returns the
answer. `Author`, `VerifyHeader` and `VerifyUncles` test
`blockNumber < h.transitionBlock` inline; `Prepare` off the transition
block, `Finalize`, `FinalizeAndAssemble`, `Seal` and `SealHash` go through
`selectEngineFromHeader`, which also updates the logging fields. For a
number that fits in 64 bits both routes pick the era engine `engineFor`.
`CalcDifficulty` selects on `parent.Number.Uint64() + 1`, a 64-bit sum
that wraps at the top of the range. `Close` closes both engines.
-/

namespace HybridConsensus.Delegation

open EngineInterface EngineSelection TransitionBlock

variable {χ : Host} {ε : Type} (h : Hybrid ε)

/-- `Author`: the engine of the header's era answers. -/
def author (header : Header χ) : Prog χ ε (Address × GoError) :=
  let blockNumber := header.number.toUInt64
  let engine := if blockNumber < h.transitionBlock then h.posEngine else h.poaEngine
  Prog.forward engine (.author header)

/-- `VerifyHeader`: a PoS-era header always goes to the PoS engine, whatever the
node's head; from the transition on, the PoA engine verifies. -/
def verifyHeader (chain : χ.Chain) (header : Header χ) : Prog χ ε GoError :=
  let blockNumber := header.number.toUInt64
  if blockNumber < h.transitionBlock then Prog.forward h.posEngine (.verifyHeader chain header)
  else
    let engine := h.poaEngine
    Prog.forward engine (.verifyHeader chain header)

/-- `VerifyUncles`: the engine of the block's era verifies its uncles. -/
def verifyUncles (chain : χ.Chain) (block : Block χ) : Prog χ ε GoError :=
  let blockNumber := block.number.toUInt64
  let engine := if blockNumber < h.transitionBlock then h.posEngine else h.poaEngine
  Prog.forward engine (.verifyUncles chain block)

/-- The common body of the methods that call `selectEngineFromHeader(header)` and
forward the call `c` to the engine it returns. -/
def selectAndForward (now : Time) (header : Header χ) (c : Call χ) (d : Diag) :
    Diag × Prog χ ε c.Ret :=
  let selected := h.selectEngineFromHeader now header d
  (selected.1, Prog.forward selected.2 c)

/-- `Prepare`: the transition block gets the signer checkpoint; any other header is
prepared by the engine `selectEngineFromHeader` picks. -/
def prepare (now : Time) (chain : χ.Chain) (header : Header χ) (d : Diag) :
    Diag × Prog χ ε (Header χ × GoError) :=
  let blockNumber := header.number.toUInt64
  if blockNumber = h.transitionBlock then (d, prepareTransitionBlock h chain header)
  else selectAndForward h now header (.prepare chain header) d

/-- `Finalize`. -/
def finalize (now : Time) (chain : χ.Chain) (header : Header χ) (state : χ.State)
    (body : χ.Body) (d : Diag) : Diag × Prog χ ε (Header χ × χ.State) :=
  selectAndForward h now header (.finalize chain header state body) d

/-- `FinalizeAndAssemble`. -/
def finalizeAndAssemble (now : Time) (chain : χ.Chain) (header : Header χ) (state : χ.State)
    (body : χ.Body) (receipts : List χ.Receipt) (d : Diag) :
    Diag × Prog χ ε (Header χ × χ.State × Option (Block χ) × GoError) :=
  selectAndForward h now header (.finalizeAndAssemble chain header state body receipts) d

/-- `Seal`, selecting on `block.Header()`. -/
def «seal» (now : Time) (chain : χ.Chain) (block : Block χ) (results : χ.SealResults)
    (stop : χ.Stop) (d : Diag) : Diag × Prog χ ε GoError :=
  selectAndForward h now block.header (.seal chain block results stop) d

/-- `SealHash`. -/
def sealHash (now : Time) (header : Header χ) (d : Diag) : Diag × Prog χ ε χ.Hash :=
  selectAndForward h now header (.sealHash header) d

/-- `CalcDifficulty`: selects on the child's number `parent.Number.Uint64() + 1`,
computed in `uint64`. -/
def calcDifficulty (now : Time) (chain : χ.Chain) (time : UInt64) (parent : Header χ)
    (d : Diag) : Diag × Prog χ ε ℕ :=
  let nextBlockNumber := parent.number.toUInt64 + 1
  let selected := h.selectEngine now nextBlockNumber d
  (selected.1, Prog.forward selected.2 (.calcDifficulty chain time parent))

/-- `Close`: close the PoS engine, then the PoA engine whatever the first returned,
and report the first failure. -/
def close : Prog χ ε GoError :=
  .invoke h.posEngine .close fun (err1 : GoError) =>
    .invoke h.poaEngine .close fun (err2 : GoError) =>
      .ret (if err1.isSome then err1 else err2)

/-! ### One spec lemma per method -/

theorem author_eq {header : Header χ} (hn : header.number < 2 ^ 64) :
    author h header = Prog.forward (h.engineFor header.number) (.author header) := by
  rw [author, h.inline_eq_engineFor, toNat_toUInt64 hn]

theorem verifyHeader_eq (chain : χ.Chain) {header : Header χ} (hn : header.number < 2 ^ 64) :
    verifyHeader h chain header =
      Prog.forward (h.engineFor header.number) (.verifyHeader chain header) := by
  have he := h.inline_eq_engineFor header.number.toUInt64
  rw [toNat_toUInt64 hn] at he
  rw [← he]
  by_cases hc : header.number.toUInt64 < h.transitionBlock <;> simp [verifyHeader, hc]

theorem verifyUncles_eq (chain : χ.Chain) {block : Block χ} (hn : block.number < 2 ^ 64) :
    verifyUncles h chain block =
      Prog.forward (h.engineFor block.number) (.verifyUncles chain block) := by
  rw [verifyUncles, h.inline_eq_engineFor, toNat_toUInt64 hn]

/-- The engine `selectAndForward` forwards to is the era engine, whatever the
logging state and the clock. -/
theorem selectAndForward_snd (now : Time) {header : Header χ} (hn : header.number < 2 ^ 64)
    (c : Call χ) (d : Diag) :
    (selectAndForward h now header c d).2 = Prog.forward (h.engineFor header.number) c := by
  simp [selectAndForward, toNat_toUInt64 hn]

theorem prepare_of_ne (now : Time) (chain : χ.Chain) {header : Header χ}
    (hn : header.number < 2 ^ 64) (hne : header.number ≠ h.transitionBlock.toNat) (d : Diag) :
    prepare h now chain header d = selectAndForward h now header (.prepare chain header) d := by
  have hb : header.number.toUInt64 ≠ h.transitionBlock := fun heq =>
    hne (by rw [← toNat_toUInt64 hn, heq])
  simp [prepare, hb]

/-- At the transition block `Prepare` leaves the logging fields alone and hands the
PoA engine the header with the checkpoint layout as `Extra`. -/
theorem prepare_of_eq (now : Time) (chain : χ.Chain) {header : Header χ}
    (heq : header.number = h.transitionBlock.toNat) (d : Diag) :
    prepare h now chain header d =
      (d, Prog.forward h.poaEngine
        (.prepare chain { header with extra := checkpointLayout h.initialSigners })) := by
  have hb : header.number.toUInt64 = h.transitionBlock := by
    rw [heq]; exact UInt64.toNat.inj (toNat_toUInt64 h.transitionBlock.toNat_lt_size)
  rw [prepare, if_pos hb, prepareTransitionBlock, transitionExtra_eq]

/-- At the transition block, for every signer list: no PoS call and one PoA `Prepare`, on the
header whose `Extra` is replaced by the checkpoint layout (zero vanity, the signers in order,
zero seal), every other field unchanged; its answer, the error included, is returned
unchanged. The new `Extra` has `32 + 20k + 65` bytes and reads back as the signer list. -/
theorem prepare_transition_block (now : Time) (chain : χ.Chain) {header : Header χ}
    (heq : header.number = h.transitionBlock.toNat) (d : Diag) :
    prepare h now chain header d =
      (d, Prog.forward h.poaEngine
        (.prepare chain { header with extra := checkpointLayout h.initialSigners })) ∧
    (checkpointLayout h.initialSigners).length = 32 + 20 * h.initialSigners.length + 65 ∧
    checkpointSigners (checkpointLayout h.initialSigners) = h.initialSigners.map Address.bytes := by
  refine ⟨prepare_of_eq h now chain heq d, ?_, checkpointSigners_layout h.initialSigners⟩
  rw [checkpointLayout_length]
  simp only [extraVanity, extraSeal, addressLength, Nat.mul_comm]

theorem prepare_transition_block_at_hundred :
    (⟨100, [], ()⟩ : Header Host.bare).number =
      (⟨"pos", "poa", 100, defaultInitialSigners⟩ : Hybrid String).transitionBlock.toNat ∧
    prepare ⟨"pos", "poa", 100, defaultInitialSigners⟩ 0 () (⟨100, [], ()⟩ : Header Host.bare)
        Diag.init =
      (Diag.init, Prog.forward "poa" (.prepare () ⟨100, checkpointLayout defaultInitialSigners, ()⟩)) :=
  ⟨rfl, (@prepare_transition_block Host.bare String ⟨"pos", "poa", 100, defaultInitialSigners⟩ 0 ()
    ⟨100, [], ()⟩ rfl Diag.init).1⟩

/-- The child number `parent.Number.Uint64() + 1` wraps modulo `2^64`. -/
theorem toNat_toUInt64_add_one (n : ℕ) : (n.toUInt64 + 1).toNat = (n + 1) % 2 ^ 64 := by
  have hdef : (n.toUInt64 + 1).toNat = (n % 2 ^ 64 + 1) % 2 ^ 64 := rfl
  omega

/-- `CalcDifficulty` asks the era engine of the wrapped 64-bit child number. -/
theorem calcDifficulty_snd (now : Time) (chain : χ.Chain) (time : UInt64) (parent : Header χ)
    (d : Diag) : (calcDifficulty h now chain time parent d).2 =
      Prog.forward (h.engineFor ((parent.number + 1) % 2 ^ 64))
        (.calcDifficulty chain time parent) := by
  simp only [calcDifficulty, Hybrid.selectEngine_snd, toNat_toUInt64_add_one]

/-- With the transition at block 1, the child of block `2^64 - 1` is past the transition,
as its parent is, yet its difficulty is asked of the PoS engine: the 64-bit child number
wraps to `0`. -/
theorem calcDifficulty_wraps_at_max :
    (⟨"pos", "poa", 1, defaultInitialSigners⟩ : Hybrid String).transitionBlock.toNat ≤
      (2 ^ 64 - 1) + 1 ∧
    (calcDifficulty (⟨"pos", "poa", 1, defaultInitialSigners⟩ : Hybrid String) 0 () 0
        (⟨2 ^ 64 - 1, [], ()⟩ : Header Host.bare) Diag.init).2 =
      Prog.forward "pos" (.calcDifficulty () 0 ⟨2 ^ 64 - 1, [], ()⟩) := by
  refine ⟨by decide, ?_⟩
  rw [calcDifficulty_snd]
  rfl

/-- `Close` makes exactly two calls, PoS first, whatever the first answers, and
returns the first failure. -/
theorem close_run (answer : (e : ε) → (c : Call χ) → c.Ret) :
    (close h).run answer =
      ([(h.posEngine, .close), (h.poaEngine, .close)],
        (answer h.posEngine .close : GoError).or (answer h.poaEngine .close)) := by
  simp only [close, Prog.run_invoke, Prog.run_ret, List.cons.injEq]
  cases (answer h.posEngine .close : GoError) <;> rfl

end HybridConsensus.Delegation
