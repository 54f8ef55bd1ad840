import Mathlib.Data.List.Basic

/-!
# The consensus engine interface seen by the hybrid

`consensus.Engine` is modelled as a signature of calls, one constructor per
method, each with the values its caller observes afterwards. An engine method
body of the hybrid is a `Prog`: a tree that either returns or invokes one
method of one sub-engine and continues with its answer. Which sub-engine is
invoked, with which arguments, is then part of the model's data.

The host's own data (chain readers, state databases, bodies, receipts, hashes,
seal channels and every header field other than `Number` and `Extra`) is
forwarded unread, so its types are parameters collected in `Host`. Of the log
lines, those `selectEngine` writes are modelled (`EngineSelection`); the
others, and the Go runtime's allocation, are not.
-/

namespace HybridConsensus.EngineInterface

/-- Types of the host data that the hybrid hands to a sub-engine without reading it. -/
structure Host where
  /-- `consensus.ChainHeaderReader`, and `consensus.ChainReader` for `VerifyUncles`. -/
  Chain : Type
  /-- `vm.StateDB` for `Finalize`, `*state.StateDB` for `FinalizeAndAssemble`. -/
  State : Type
  /-- `*types.Body`: transactions, uncles and withdrawals. -/
  Body : Type
  /-- `*types.Receipt`. -/
  Receipt : Type
  /-- `common.Hash`, as `SealHash` returns it. -/
  Hash : Type
  /-- Every header field other than `Number` and `Extra`, parent hash included. -/
  Fields : Type
  /-- The channel `chan<- *types.Block` that `Seal` delivers on. -/
  SealResults : Type
  /-- The channel `<-chan struct{}` that stops `Seal`. -/
  Stop : Type

/-- The host whose data carries nothing, for running the model on concrete headers. -/
def Host.bare : Host := ⟨Unit, Unit, Unit, Unit, Unit, Unit, Unit, Unit⟩

/-- `common.AddressLength`. -/
def addressLength : ℕ := 20

/-- `common.Address`: exactly `addressLength` bytes, so no other width can be built. -/
structure Address where
  /-- The big-endian bytes of the address. -/
  bytes : List UInt8
  /-- The array type `[20]byte` fixes the width. -/
  bytes_length : bytes.length = addressLength
  deriving DecidableEq

/-- A Go `error` value, identified by its text as `errors.New` makes it. -/
structure Error where
  /-- What `Error()` returns. -/
  text : String
  deriving DecidableEq

/-- A Go `error` result; `none` is `nil`. -/
abbrev GoError := Option Error

/-- `*types.Header` as the hybrid sees it: it reads `Number` and writes `Extra`. -/
structure Header (χ : Host) where
  /-- `Number`, a non-negative `*big.Int`. -/
  number : ℕ
  /-- `Extra`, the consensus-reserved bytes. -/
  extra : List UInt8
  /-- All other fields, carried unchanged by the hybrid. -/
  fields : χ.Fields

/-- `*types.Block`, read by the hybrid only through `Header()` and `Number()`. -/
structure Block (χ : Host) where
  /-- The block's header. -/
  header : Header χ
  /-- Transactions, uncles and withdrawals. -/
  body : χ.Body

/-- `block.Number()`. -/
def Block.number {χ : Host} (block : Block χ) : ℕ := block.header.number

/-- One call of a `consensus.Engine` method, with its arguments. -/
inductive Call (χ : Host) : Type
  | author (header : Header χ)
  | verifyHeader (chain : χ.Chain) (header : Header χ)
  | verifyHeaders (chain : χ.Chain) (headers : List (Header χ))
  | verifyUncles (chain : χ.Chain) (block : Block χ)
  | prepare (chain : χ.Chain) (header : Header χ)
  | finalize (chain : χ.Chain) (header : Header χ) (state : χ.State) (body : χ.Body)
  | finalizeAndAssemble (chain : χ.Chain) (header : Header χ) (state : χ.State)
      (body : χ.Body) (receipts : List χ.Receipt)
  | seal (chain : χ.Chain) (block : Block χ) (results : χ.SealResults) (stop : χ.Stop)
  | sealHash (header : Header χ)
  | calcDifficulty (chain : χ.Chain) (time : UInt64) (parent : Header χ)
  | close

/-- What the caller observes after a call: the returned values, and the header or
state a method may write through its pointer argument. `VerifyHeaders` answers
with the verdicts its results channel delivers, in order, before it is closed,
when the caller never closes the abort channel. -/
abbrev Call.Ret {χ : Host} : Call χ → Type
  | .author _ => Address × GoError
  | .verifyHeader _ _ => GoError
  | .verifyHeaders _ _ => List GoError
  | .verifyUncles _ _ => GoError
  | .prepare _ _ => Header χ × GoError
  | .finalize _ _ _ _ => Header χ × χ.State
  | .finalizeAndAssemble _ _ _ _ _ => Header χ × χ.State × Option (Block χ) × GoError
  | .seal _ _ _ _ => GoError
  | .sealHash _ => χ.Hash
  | .calcDifficulty _ _ _ => ℕ
  | .close => GoError

/-- A method body over sub-engines of type `ε`: return, or invoke one method of one
sub-engine and continue with its answer. -/
inductive Prog (χ : Host) (ε : Type) (α : Type) : Type
  | ret (value : α)
  | invoke (engine : ε) (call : Call χ) (next : call.Ret → Prog χ ε α)

namespace Prog

variable {χ : Host} {ε α β : Type}

/-- Sequencing: run `p`, then the program its result selects. -/
def bind : Prog χ ε α → (α → Prog χ ε β) → Prog χ ε β
  | ret a, f => f a
  | invoke e c k, f => invoke e c fun r => (k r).bind f

/-- The invocations a program makes, in order, and its result, when sub-engine `e`
answers call `c` with `answer e c`. -/
def run (answer : (e : ε) → (c : Call χ) → c.Ret) : Prog χ ε α → List (ε × Call χ) × α
  | ret a => ([], a)
  | invoke e c k => ((e, c) :: ((k (answer e c)).run answer).1, ((k (answer e c)).run answer).2)

variable (answer : (e : ε) → (c : Call χ) → c.Ret)

@[simp] theorem run_ret (a : α) : (ret a : Prog χ ε α).run answer = ([], a) := rfl

@[simp] theorem run_invoke (e : ε) (c : Call χ) (k : c.Ret → Prog χ ε α) :
    (invoke e c k).run answer =
      ((e, c) :: ((k (answer e c)).run answer).1, ((k (answer e c)).run answer).2) := rfl

@[simp] theorem ret_bind (a : α) (f : α → Prog χ ε β) : (ret a).bind f = f a := rfl

@[simp] theorem invoke_bind (e : ε) (c : Call χ) (k : c.Ret → Prog χ ε α)
    (f : α → Prog χ ε β) : (invoke e c k).bind f = invoke e c fun r => (k r).bind f := rfl

/-- Running a sequence makes the first program's invocations, then the second's. -/
theorem run_bind (p : Prog χ ε α) (f : α → Prog χ ε β) :
    (p.bind f).run answer =
      ((p.run answer).1 ++ ((f (p.run answer).2).run answer).1,
        ((f (p.run answer).2).run answer).2) := by
  induction p with
  | ret a => rfl
  | invoke e c k ih => simp [ih]

/-- A single forwarded call: invoke `e` on `c` and return its answer unchanged. -/
def forward (e : ε) (c : Call χ) : Prog χ ε c.Ret := invoke e c ret

@[simp] theorem run_forward (e : ε) (c : Call χ) :
    (forward e c).run answer = ([(e, c)], answer e c) := rfl

end Prog

end HybridConsensus.EngineInterface
