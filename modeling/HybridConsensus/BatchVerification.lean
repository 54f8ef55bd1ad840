import HybridConsensus.Delegation
import Mathlib.Data.List.Sort

/-!
# Batch header verification

`VerifyHeaders` answers an empty batch with closed channels, forwards a
batch whose last header is before the transition to the PoS engine, one
whose first header is at or after it to the PoA engine, and verifies a
straddling batch header by header with `VerifyHeader` in a goroutine. Here
that goroutine is its sequential work when the caller never aborts;
`VerifierRoutine` models its steps, the abort and the channel buffer.

For a batch with non-decreasing 64-bit numbers, every header is handed to
the engine of its own era exactly once, in batch order, on all three paths:
the first/last test of the two bulk paths is exact.
-/

namespace HybridConsensus.BatchVerification

open EngineInterface EngineSelection Delegation

variable {χ : Host} {ε : Type} (h : Hybrid ε)

/-- The goroutine's loop when the caller never aborts: `VerifyHeader` on each header
in order, one verdict each. -/
def verifyEach (chain : χ.Chain) : List (Header χ) → Prog χ ε (List GoError)
  | [] => .ret []
  | header :: rest =>
    (verifyHeader h chain header).bind fun err =>
      (verifyEach chain rest).bind fun errs => .ret (err :: errs)

/-- `VerifyHeaders`, with the verdicts its results channel delivers when not aborted. -/
def verifyHeaders (chain : χ.Chain) : List (Header χ) → Prog χ ε (List GoError)
  | [] => .ret []
  | first :: rest =>
    let headers := first :: rest
    let firstBlock := first.number.toUInt64
    let lastBlock := (headers.getLast (List.cons_ne_nil _ _)).number.toUInt64
    if lastBlock < h.transitionBlock then
      Prog.forward h.posEngine (.verifyHeaders chain headers)
    else if firstBlock ≥ h.transitionBlock then
      Prog.forward h.poaEngine (.verifyHeaders chain headers)
    else verifyEach h chain headers

/-- The headers a call hands to a sub-engine for verification. -/
def Call.verified : Call χ → List (Header χ)
  | .verifyHeader _ header => [header]
  | .verifyHeaders _ headers => headers
  | _ => []

/-- Which engine was handed which header, over a log of invocations. -/
def handedOver (log : List (ε × Call χ)) : List (ε × Header χ) :=
  log.flatMap fun call => (Call.verified call.2).map fun header => (call.1, header)

/-- Block numbers that fit in 64 bits, as every well-formed header's does. -/
def Fits (headers : List (Header χ)) : Prop := ∀ header ∈ headers, header.number < 2 ^ 64

/-- A batch whose block numbers never decrease. -/
def Ascending (headers : List (Header χ)) : Prop :=
  headers.Pairwise fun a b => a.number ≤ b.number

variable (answer : (e : ε) → (c : Call χ) → c.Ret)

/-- The sub-engines' own batch contract, where the hybrid relies on it: the engine a bulk path
forwards the batch to delivers its per-header verdicts for it, in order. -/
def BulkContract (chain : χ.Chain) (headers : List (Header χ)) : Prop :=
  ∀ e, verifyHeaders h chain headers = Prog.forward e (.verifyHeaders chain headers) →
    answer e (.verifyHeaders chain headers) =
      headers.map fun header => answer e (.verifyHeader chain header)

/-- The sequential loop asks the era engine of each header, once, in order. -/
theorem verifyEach_run (chain : χ.Chain) {headers : List (Header χ)} (hfit : Fits headers) :
    (verifyEach h chain headers).run answer =
      (headers.map fun header => (h.engineFor header.number, .verifyHeader chain header),
        headers.map fun header =>
          answer (h.engineFor header.number) (.verifyHeader chain header)) := by
  induction headers with
  | nil => rfl
  | cons header rest ih =>
    have hrest : Fits rest := fun x hx => hfit x (List.mem_cons_of_mem _ hx)
    simp [verifyEach, Prog.run_bind, verifyHeader_eq h chain (hfit header (List.mem_cons_self _ _)),
      ih hrest, Prog.forward]

theorem le_getLast_of_ascending {headers : List (Header χ)} (hasc : Ascending headers)
    (hne : headers ≠ []) : ∀ x ∈ headers, x.number ≤ (headers.getLast hne).number := by
  intro x hx
  have hsplit := List.dropLast_append_getLast hne
  rw [← hsplit] at hx hasc
  rcases List.mem_append.mp hx with hx | hx
  · exact (List.pairwise_append.mp hasc).2.2 x hx _ (List.mem_singleton_self _)
  · rw [List.mem_singleton.mp hx]

theorem head_le_of_ascending {headers : List (Header χ)} (hasc : Ascending headers)
    (hne : headers ≠ []) : ∀ x ∈ headers, (headers.head hne).number ≤ x.number := by
  match headers, hasc with
  | first :: rest, hasc =>
    intro x hx
    rcases List.mem_cons.mp hx with rfl | hx
    · exact Nat.le_refl _
    · exact (List.pairwise_cons.mp hasc).1 x hx

/-- The three paths of `VerifyHeaders`, with the engine each hands every header to. -/
theorem verifyHeaders_cases (chain : χ.Chain) {headers : List (Header χ)} (hfit : Fits headers)
    (hasc : Ascending headers) :
    verifyHeaders h chain headers = .ret [] ∧ headers = [] ∨
    (∃ e, verifyHeaders h chain headers = Prog.forward e (.verifyHeaders chain headers) ∧
      ∀ x ∈ headers, h.engineFor x.number = e) ∨
    verifyHeaders h chain headers = verifyEach h chain headers := by
  match headers, hfit, hasc with
  | [], _, _ => exact .inl ⟨rfl, rfl⟩
  | first :: rest, hfit, hasc =>
    have hne := List.cons_ne_nil first rest
    have hlast := toNat_toUInt64 (hfit _ (List.getLast_mem hne))
    have hfirst := toNat_toUInt64 (hfit _ (List.head_mem hne))
    by_cases hpos : ((first :: rest).getLast hne).number.toUInt64 < h.transitionBlock
    · refine .inr (.inl ⟨h.posEngine, by simp [verifyHeaders, hpos], fun x hx => ?_⟩)
      have hx := le_getLast_of_ascending hasc hne x hx
      rw [UInt64.lt_def, BitVec.lt_def] at hpos
      exact h.engineFor_of_lt (by simp only [UInt64.toNat] at hlast ⊢; omega)
    by_cases hpoa : first.number.toUInt64 ≥ h.transitionBlock
    · refine .inr (.inl ⟨h.poaEngine, by simp [verifyHeaders, hpos, hpoa], fun x hx => ?_⟩)
      have hx := head_le_of_ascending hasc hne x hx
      rw [ge_iff_le, UInt64.le_def, BitVec.le_def] at hpoa
      exact h.engineFor_of_le (by simp only [List.head_cons, UInt64.toNat] at hfirst hx ⊢; omega)
    · exact .inr (.inr (by simp [verifyHeaders, hpos, hpoa]))

@[simp] theorem handedOver_nil : handedOver ([] : List (ε × Call χ)) = [] := rfl

theorem handedOver_cons (call : ε × Call χ) (log : List (ε × Call χ)) :
    handedOver (call :: log) =
      (Call.verified call.2).map (fun header => (call.1, header)) ++ handedOver log := rfl

theorem handedOver_map_verifyHeader (engine : Header χ → ε) (chain : χ.Chain)
    (headers : List (Header χ)) :
    handedOver (headers.map fun header => (engine header, Call.verifyHeader chain header)) =
      headers.map fun header => (engine header, header) := by
  induction headers with
  | nil => rfl
  | cons header rest ih => rw [List.map_cons, handedOver_cons, ih]; rfl

/-- Each header of an ascending 64-bit batch is handed to its era engine, once, in order. -/
theorem verifyHeaders_handedOver (chain : χ.Chain) {headers : List (Header χ)}
    (hfit : Fits headers) (hasc : Ascending headers) :
    handedOver ((verifyHeaders h chain headers).run answer).1 =
      headers.map fun header => (h.engineFor header.number, header) := by
  rcases verifyHeaders_cases h chain hfit hasc with ⟨hv, rfl⟩ | ⟨e, hv, he⟩ | hv
  · rw [hv]; rfl
  · rw [hv, Prog.run_forward, handedOver_cons, handedOver_nil, List.append_nil]
    exact List.map_congr_left fun x hx => by rw [he x hx]
  · rw [hv, verifyEach_run h answer chain hfit, handedOver_map_verifyHeader]

/-- When the engine a bulk path forwards the batch to keeps the batch contract, `VerifyHeaders`
delivers one verdict per header, in order: the era engine's. -/
theorem verifyHeaders_verdicts (chain : χ.Chain) {headers : List (Header χ)}
    (hfit : Fits headers) (hasc : Ascending headers)
    (hbatch : BulkContract h answer chain headers) :
    ((verifyHeaders h chain headers).run answer).2 =
      headers.map fun header =>
        answer (h.engineFor header.number) (.verifyHeader chain header) := by
  rcases verifyHeaders_cases h chain hfit hasc with ⟨hv, rfl⟩ | ⟨e, hv, he⟩ | hv
  · rw [hv]; rfl
  · rw [hv, Prog.run_forward]
    exact (hbatch e hv).trans (List.map_congr_left fun x hx => by rw [he x hx])
  · rw [hv, verifyEach_run h answer chain hfit]

end HybridConsensus.BatchVerification
