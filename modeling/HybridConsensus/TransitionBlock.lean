import HybridConsensus.EngineSelection

/-!
# The transition block's checkpoint extra-data

`prepareTransitionBlock` allocates a zeroed buffer of
`extraVanity + len(initialSigners)*AddressLength + extraSeal` bytes, copies
each signer into it at `extraVanity + i*AddressLength` with Go's `copy`, and
hands the header with that `Extra` to the PoA engine's `Prepare`. The copy
loop is modelled step by step. For every signer list, of any length, it
builds exactly the checkpoint layout: zero vanity, the signers in order,
zero seal; cutting the middle into 20-byte words gives the list back.
-/

namespace HybridConsensus.TransitionBlock

open EngineInterface EngineSelection

/-- `extraVanity`, the signer vanity prefix of clique's extra-data. -/
def extraVanity : ℕ := 32

/-- `extraSeal`, the signature suffix of clique's extra-data. -/
def extraSeal : ℕ := 65

/-- Go's `copy(dst, src)` on byte slices, as the new contents of `dst`: the first
`min(len(dst), len(src))` bytes are taken from `src`. -/
def copyBytes : List UInt8 → List UInt8 → List UInt8
  | _ :: dst, b :: src => b :: copyBytes dst src
  | dst, _ => dst

/-- `copy(dst[off:], src)` for `off ≤ len(dst)`, as the new contents of `dst`. -/
def copyAt (dst : List UInt8) (off : ℕ) (src : List UInt8) : List UInt8 :=
  dst.take off ++ copyBytes (dst.drop off) src

/-- The loop `for i, signer := range h.initialSigners`, from index `i` on. -/
def copySigners (extraData : List UInt8) (i : ℕ) : List Address → List UInt8
  | [] => extraData
  | signer :: rest =>
    copySigners (copyAt extraData (extraVanity + i * addressLength) signer.bytes) (i + 1) rest

/-- The `extraData` that `prepareTransitionBlock` writes into the header. -/
def transitionExtra (signers : List Address) : List UInt8 :=
  copySigners (List.replicate (extraVanity + signers.length * addressLength + extraSeal) 0) 0
    signers

/-- The checkpoint layout: zero vanity, the signers' bytes in order, zero seal. -/
def checkpointLayout (signers : List Address) : List UInt8 :=
  List.replicate extraVanity 0 ++ (signers.map Address.bytes).flatten ++
    List.replicate extraSeal 0

/-- `k` consecutive 20-byte words from the front of `bytes`. -/
def addressWords : ℕ → List UInt8 → List (List UInt8)
  | 0, _ => []
  | k + 1, bytes => bytes.take addressLength :: addressWords k (bytes.drop addressLength)

/-- The signers a checkpoint `Extra` carries: the bytes between the vanity and the
seal, cut into 20-byte words. -/
def checkpointSigners (extra : List UInt8) : List (List UInt8) :=
  addressWords ((extra.length - extraVanity - extraSeal) / addressLength)
    (extra.drop extraVanity)

/-- `copy` of a source no longer than the destination overwrites exactly its prefix. -/
theorem copyBytes_of_le (src : List UInt8) :
    ∀ {dst : List UInt8}, src.length ≤ dst.length →
      copyBytes dst src = src ++ dst.drop src.length := by
  induction src with
  | nil => intro dst _; cases dst <;> rfl
  | cons b src ih =>
    intro dst hle
    cases dst with
    | nil => simp at hle
    | cons d dst => simp [copyBytes, ih (Nat.le_of_succ_le_succ hle)]

theorem signerBytes_length (signers : List Address) :
    (signers.map Address.bytes).flatten.length = signers.length * addressLength := by
  induction signers with
  | nil => rfl
  | cons s rest ih => simp [ih, s.bytes_length, Nat.succ_mul, Nat.add_comm]

/-- One loop iteration fills the next zero slot with the next signer. -/
theorem copyAt_next_slot (done rest : List Address) (signer : Address) :
    copyAt (List.replicate extraVanity 0 ++ (done.map Address.bytes).flatten ++
        List.replicate ((rest.length + 1) * addressLength + extraSeal) 0)
      (extraVanity + done.length * addressLength) signer.bytes =
    List.replicate extraVanity 0 ++ ((done ++ [signer]).map Address.bytes).flatten ++
      List.replicate (rest.length * addressLength + extraSeal) 0 := by
  have hpre : (List.replicate extraVanity (0 : UInt8) ++ (done.map Address.bytes).flatten).length =
      extraVanity + done.length * addressLength := by
    rw [List.length_append, List.length_replicate, signerBytes_length]
  have hslot : signer.bytes.length ≤
      (List.replicate ((rest.length + 1) * addressLength + extraSeal) (0 : UInt8)).length := by
    rw [List.length_replicate, signer.bytes_length, Nat.succ_mul]
    omega
  rw [copyAt, List.take_left' hpre, List.drop_left' hpre, copyBytes_of_le _ hslot,
    List.drop_replicate, signer.bytes_length]
  have hn : (rest.length + 1) * addressLength + extraSeal - addressLength =
      rest.length * addressLength + extraSeal := by rw [Nat.succ_mul]; omega
  simp [hn]

/-- The copy loop's invariant: after the signers `done`, they sit in order after the
vanity and every later byte is still zero. -/
theorem copySigners_layout (rest : List Address) :
    ∀ done : List Address,
      copySigners (List.replicate extraVanity 0 ++ (done.map Address.bytes).flatten ++
          List.replicate (rest.length * addressLength + extraSeal) 0) done.length rest =
        checkpointLayout (done ++ rest) := by
  induction rest with
  | nil => intro done; simp [copySigners, checkpointLayout]
  | cons signer rest ih =>
    intro done
    rw [List.length_cons, copySigners, copyAt_next_slot]
    simpa using ih (done ++ [signer])

/-- The transition extra-data is the checkpoint layout, for every signer list. -/
theorem transitionExtra_eq (signers : List Address) :
    transitionExtra signers = checkpointLayout signers := by
  have h := copySigners_layout signers []
  simp only [List.map_nil, List.flatten_nil, List.append_nil, List.length_nil,
    List.nil_append, ← List.replicate_add] at h
  rw [transitionExtra, Nat.add_assoc]
  exact h

theorem checkpointLayout_length (signers : List Address) :
    (checkpointLayout signers).length =
      extraVanity + signers.length * addressLength + extraSeal := by
  simp only [checkpointLayout, List.length_append, List.length_replicate, signerBytes_length]

theorem addressWords_flatten (signers : List Address) (tail : List UInt8) :
    addressWords signers.length ((signers.map Address.bytes).flatten ++ tail) =
      signers.map Address.bytes := by
  induction signers with
  | nil => rfl
  | cons s rest ih =>
    simp only [List.length_cons, addressWords, List.map_cons, List.flatten_cons, List.append_assoc]
    rw [List.take_left' s.bytes_length, List.drop_left' s.bytes_length, ih]

/-- Reading the checkpoint layout back gives the signers in declared order. -/
theorem checkpointSigners_layout (signers : List Address) :
    checkpointSigners (checkpointLayout signers) = signers.map Address.bytes := by
  have hk : ((checkpointLayout signers).length - extraVanity - extraSeal) / addressLength =
      signers.length := by
    rw [checkpointLayout_length]
    simp only [addressLength]
    omega
  rw [checkpointSigners, hk, checkpointLayout, List.append_assoc,
    List.drop_left' (List.length_replicate _ _), addressWords_flatten]

/-- `prepareTransitionBlock`: write the signer checkpoint into `Extra`, then let the PoA
engine prepare the rest of the header and return its error, `nil` included. -/
def prepareTransitionBlock {χ : Host} {ε : Type} (h : Hybrid ε) (chain : χ.Chain)
    (header : Header χ) : Prog χ ε (Header χ × GoError) :=
  let extraData := transitionExtra h.initialSigners
  Prog.forward h.poaEngine (.prepare chain { header with extra := extraData })

end HybridConsensus.TransitionBlock
