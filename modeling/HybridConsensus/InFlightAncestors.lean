import HybridConsensus.VerifierRoutine

/-!
# Verdicts that depend on in-flight ancestors

A sub-engine checks a header against its parent, which it looks up in the
chain or, inside a batch, among the headers before it (clique's and ethash's
`verifyHeader(chain, header, parents)`). `VerifyHeader` passes no in-flight
ancestors; `VerifyHeaders` passes `headers[:i]` for `headers[i]`.

A batch that lies on one side of the transition, ascending or not, is
forwarded whole to its era engine and so keeps that contract. The
straddling path calls `VerifyHeader` on each header, so a header whose
parent is earlier in the same batch is checked without it: in a batch that
straddles the transition, a child is rejected for an unknown ancestor that
the era engine, given the batch, accepts.
-/

namespace HybridConsensus.InFlightAncestors

open EngineInterface EngineSelection Delegation BatchVerification

variable {χ : Host} {ε : Type}

/-- The verdicts of a batch when header `x` is checked by `check x` with the headers before
it in the batch as in-flight ancestors. -/
def withAncestors (check : Header χ → List (Header χ) → Header χ → GoError) :
    List (Header χ) → List (Header χ) → List GoError
  | _, [] => []
  | parents, header :: rest =>
    check header parents header :: withAncestors check (parents ++ [header]) rest

theorem withAncestors_congr {check check' : Header χ → List (Header χ) → Header χ → GoError}
    {headers : List (Header χ)} (hc : ∀ x ∈ headers, check x = check' x) :
    ∀ parents, withAncestors check parents headers = withAncestors check' parents headers := by
  induction headers with
  | nil => intro _; rfl
  | cons x rest ih =>
    intro parents
    simp only [withAncestors, hc x (List.mem_cons_self _ _),
      ih fun y hy => hc y (List.mem_cons_of_mem _ hy)]

/-- A batch that is a chain segment: each header follows the one before it. -/
def Consecutive (headers : List (Header χ)) : Prop :=
  headers.Chain' fun parent child => child.number = parent.number + 1

/-- Sub-engines built on `verifyWith e chain parents header`: `VerifyHeader` checks with no
in-flight ancestors, `VerifyHeaders` with each header's predecessors in the batch. -/
def Ancestral (verifyWith : ε → χ.Chain → List (Header χ) → Header χ → GoError)
    (answer : (e : ε) → (c : Call χ) → c.Ret) : Prop :=
  (∀ e chain header, answer e (.verifyHeader chain header) = verifyWith e chain [] header) ∧
  ∀ e chain headers, answer e (.verifyHeaders chain headers) =
    withAncestors (fun _ => verifyWith e chain) [] headers

variable (h : Hybrid ε) (answer : (e : ε) → (c : Call χ) → c.Ret)

/-- On the straddling path each header is checked by its era engine with no in-flight
ancestors. -/
theorem verifyEach_without_ancestors
    {verifyWith : ε → χ.Chain → List (Header χ) → Header χ → GoError}
    (hanc : Ancestral verifyWith answer) (chain : χ.Chain) {headers : List (Header χ)}
    (hfit : Fits headers) :
    ((verifyEach h chain headers).run answer).2 =
      headers.map fun header => verifyWith (h.engineFor header.number) chain [] header := by
  rw [verifyEach_run h answer chain hfit]
  exact List.map_congr_left fun x _ => hanc.1 _ _ _

/-- `consensus.ErrUnknownAncestor`. -/
def unknownAncestor : Error := ⟨"unknown ancestor"⟩

/-- The host of the failing input: a chain is known by its head number. -/
def chainHost : Host := ⟨ℕ, Unit, Unit, Unit, Unit, Unit, Unit, Unit⟩

/-- Parent lookup as clique and ethash do it: in the chain, else the last in-flight ancestor. -/
def parentCheck (head : ℕ) (parents : List (Header chainHost)) (header : Header chainHost) :
    GoError :=
  if header.number ≤ head + 1 ∨ (parents.getLast?.map (·.number + 1)) = some header.number then
    none
  else some unknownAncestor

/-- Both sub-engines check parents, and answer `VerifyHeaders` with in-flight ancestors. -/
def ancestralAnswer : (e : String) → (c : Call chainHost) → c.Ret
  | _, .verifyHeader head header => parentCheck head [] header
  | _, .verifyHeaders head headers => withAncestors (fun _ => parentCheck head) [] headers
  | _, .author _ => (⟨List.replicate 20 0, rfl⟩, none)
  | _, .verifyUncles _ _ => none
  | _, .prepare _ header => (header, none)
  | _, .finalize _ header state _ => (header, state)
  | _, .finalizeAndAssemble _ header state _ _ => (header, state, none, none)
  | _, .seal _ _ _ _ => none
  | _, .sealHash _ => ()
  | _, .calcDifficulty _ _ _ => 1
  | _, .close => none

/-- A batch that lies on one side of the transition, ascending or not, is forwarded whole to
its era engine, so every verdict is the era engine's with the in-flight ancestors. -/
theorem verifyHeaders_bulk_with_ancestors
    {verifyWith : ε → χ.Chain → List (Header χ) → Header χ → GoError}
    (hanc : Ancestral verifyWith answer) (chain : χ.Chain) {headers : List (Header χ)}
    (hfit : Fits headers)
    (hside : (∀ x ∈ headers, x.number < h.transitionBlock.toNat) ∨
      ∀ x ∈ headers, h.transitionBlock.toNat ≤ x.number) :
    ((verifyHeaders h chain headers).run answer).2 =
      withAncestors (fun x => verifyWith (h.engineFor x.number) chain) [] headers := by
  match headers, hfit, hside with
  | [], _, _ => rfl
  | first :: rest, hfit, hside =>
    have hne := List.cons_ne_nil first rest
    have hlast := toNat_toUInt64 (hfit _ (List.getLast_mem hne))
    have hfirst := toNat_toUInt64 (hfit first (List.mem_cons_self _ _))
    rcases hside with hpos | hpoa
    · have hlt : ((first :: rest).getLast hne).number.toUInt64 < h.transitionBlock := by
        show ((first :: rest).getLast hne).number.toUInt64.toNat < h.transitionBlock.toNat
        rw [hlast]; exact hpos _ (List.getLast_mem hne)
      rw [verifyHeaders, if_pos hlt, Prog.run_forward, hanc.2]
      exact withAncestors_congr (fun x hx => by rw [h.engineFor_of_lt (hpos x hx)]) []
    · have hge : ¬((first :: rest).getLast hne).number.toUInt64 < h.transitionBlock := by
        show ¬((first :: rest).getLast hne).number.toUInt64.toNat < h.transitionBlock.toNat
        rw [hlast]; exact Nat.not_lt.mpr (hpoa _ (List.getLast_mem hne))
      have hle : first.number.toUInt64 ≥ h.transitionBlock := by
        show h.transitionBlock.toNat ≤ first.number.toUInt64.toNat
        rw [hfirst]; exact hpoa first (List.mem_cons_self _ _)
      rw [verifyHeaders, if_neg hge, if_pos hle, Prog.run_forward, hanc.2]
      exact withAncestors_congr (fun x hx => by rw [h.engineFor_of_le (hpoa x hx)]) []

theorem verifyHeaders_bulk_after_transition :
    Ancestral (fun _ => parentCheck) ancestralAnswer ∧
    Fits [(⟨3, [], ()⟩ : Header chainHost), ⟨4, [], ()⟩] ∧
    ((∀ x ∈ [(⟨3, [], ()⟩ : Header chainHost), ⟨4, [], ()⟩],
        x.number < (⟨"pos", "poa", 2, defaultInitialSigners⟩ : Hybrid String).transitionBlock.toNat) ∨
      ∀ x ∈ [(⟨3, [], ()⟩ : Header chainHost), ⟨4, [], ()⟩],
        (⟨"pos", "poa", 2, defaultInitialSigners⟩ : Hybrid String).transitionBlock.toNat ≤
          x.number) ∧
    ((verifyHeaders (⟨"pos", "poa", 2, defaultInitialSigners⟩ : Hybrid String) (2 : ℕ)
        [⟨3, [], ()⟩, ⟨4, [], ()⟩]).run ancestralAnswer).2 =
      withAncestors (fun _ => parentCheck 2) [] [⟨3, [], ()⟩, ⟨4, [], ()⟩] :=
  have hanc : Ancestral (fun _ => parentCheck) ancestralAnswer :=
    ⟨fun _ _ _ => rfl, fun _ _ _ => rfl⟩
  ⟨hanc, by unfold Fits; decide, .inr (by decide),
    verifyHeaders_bulk_with_ancestors _ _ hanc _ (by unfold Fits; decide) (.inr (by decide))⟩

/-- A straddling batch `[1, 2]` on a chain whose head is the genesis block, with the
transition at block 2: the batch takes the straddling path, where each header is checked with
no in-flight ancestors, so the hybrid rejects block 2 for an unknown ancestor, while its era
engine, given block 1 in flight, accepts it. The engines answer `VerifyHeaders` with
in-flight ancestors. -/
theorem verifyHeaders_straddle_loses_ancestors :
    Ancestral (fun _ => parentCheck) ancestralAnswer ∧
    Consecutive [(⟨1, [], ()⟩ : Header chainHost), ⟨2, [], ()⟩] ∧
    ((verifyHeaders (⟨"pos", "poa", 2, defaultInitialSigners⟩ : Hybrid String) (0 : ℕ)
        [⟨1, [], ()⟩, ⟨2, [], ()⟩]).run ancestralAnswer).2 = [none, some unknownAncestor] ∧
    withAncestors (fun _ => parentCheck 0) [] [⟨1, [], ()⟩, ⟨2, [], ()⟩] = [none, none] :=
  have hanc : Ancestral (fun _ => parentCheck) ancestralAnswer :=
    ⟨fun _ _ _ => rfl, fun _ _ _ => rfl⟩
  have hstraddle : verifyHeaders (⟨"pos", "poa", 2, defaultInitialSigners⟩ : Hybrid String) (0 : ℕ)
      [(⟨1, [], ()⟩ : Header chainHost), ⟨2, [], ()⟩] =
        verifyEach ⟨"pos", "poa", 2, defaultInitialSigners⟩ (0 : ℕ) [⟨1, [], ()⟩, ⟨2, [], ()⟩] :=
    rfl
  ⟨hanc, by simp [Consecutive],
    by rw [hstraddle, verifyEach_without_ancestors _ _ hanc _ (by unfold Fits; decide)]; decide,
    by decide⟩

end HybridConsensus.InFlightAncestors
