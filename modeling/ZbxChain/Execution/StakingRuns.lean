import ZbxChain.Execution.Reach
import ZbxChain.Lib.Runs
import ZbxChain.Staking.Delegations

/-!
# Sequences of staking transactions

Staking transactions run one after the other over one write set; when a block is committed the
write set goes to the database and the next block starts with the accounts as they are then. A
transaction that is not accepted changes nothing.
-/

namespace ZbxChain

open StateView ValidatorSet

/-! ## One transaction -/

section

variable (E : Engines) {tx : SignedTransaction} (header : BlockHeader) (db : ZbxDb)

theorem runStakingCall_dispatched {call : StakingTx} (s : StakingState StateView)
    (hcall : E.decodeStakingCall tx.tx.data = .ok call) (happeal : ∀ id, call ≠ .fileAppeal id) :
    (runStakingCall E tx header db s).2 =
      finalState (dispatchStakingTx E.bls call tx.sender tx.tx.valueU128 header.number db s) := by
  unfold runStakingCall
  rw [hcall]
  cases call with
  | fileAppeal id => exact absurd rfl (happeal id)
  | _ =>
    dsimp only
    split
    · rename_i hrun
      rw [hrun, finalState_ok]
    · rename_i hrun
      rw [hrun, finalState_error]

theorem runStakingCall_effect (tx : SignedTransaction) (s : StakingState StateView) :
    ∃ call, StakingEffect db tx.sender tx.tx.valueU128 header.number call s
      (runStakingCall E tx header db s).1.isSome (runStakingCall E tx header db s).2 := by
  unfold runStakingCall
  split
  · exact ⟨.fileAppeal 0, .refused⟩
  · exact ⟨.fileAppeal 0, .refused⟩
  rename_i call _ hcall
  refine ⟨call, ?_⟩
  have hends : Ends (StakingEffect db tx.sender tx.tx.valueU128 header.number call s) _ :=
    dispatchStakingTx_effect E.bls call s
  split
  all_goals
    rename_i hrun
    rw [hrun] at hends
    exact hends

variable (vs : ValidatorSet) (delta : StakingDelta)

theorem executeStakingTx_run {view debited : StateView} (h : preflight tx view = .ok debited) :
    ∃ result view', executeStakingTx E tx header db vs delta view = .ok (result,
      { (runStakingCall E tx header db ⟨vs, delta, debited⟩).2 with balances := view' }) := by
  unfold executeStakingTx
  rw [h]
  exact ⟨_, _, rfl⟩

theorem executeStakingTx_refused {view : StateView} {e : Fault ExecutionError}
    (h : preflight tx view = .error e) :
    executeStakingTx E tx header db vs delta view = .error e := by
  unfold executeStakingTx
  rw [h]
  rfl

end

/-! ## Sequences -/

structure StakingLedger where
  db : ZbxDb
  state : StakingState StateView

/-- A transaction, or the commit of a block after which the accounts are as in `view`. -/
inductive StakingStep
  | tx (tx : SignedTransaction) (header : BlockHeader)
  | commit (view : StateView)

namespace StakingLedger

variable (E : Engines) (l : StakingLedger)

def step : StakingStep → StakingLedger
  | .tx tx header =>
    match executeStakingTx E tx header l.db l.state.vs l.state.delta l.state.balances with
    | .ok (_, s) => { l with state := s }
    | .error _ => l
  | .commit view =>
    let delta := l.state.delta
    ⟨l.db.applyStakingDelta delta.delegations.entries delta.unbondingPuts.entries
      delta.unbondingDeletes.entries, ⟨l.state.vs, .new, view⟩⟩

def Balanced : Prop := DelegationsBalanced l.db l.state

def Fits : StakingStep → Prop
  | .tx tx _ => (∃ debited, preflight tx l.state.balances = .ok debited) → ∀ call,
      E.decodeStakingCall tx.tx.data = .ok call →
        DelegationFits l.db tx.sender tx.tx.valueU128 call l.state
  | .commit _ => True

section

variable (E : Engines) (l : StakingLedger) {tx : SignedTransaction} (header : BlockHeader)

theorem step_tx_refused {e : Fault ExecutionError} (h : preflight tx l.state.balances = .error e) :
    l.step E (.tx tx header) = l := by
  simp only [step, executeStakingTx_refused E header l.db _ _ h]

theorem step_tx_accepted {debited : StateView} (h : preflight tx l.state.balances = .ok debited) :
    ∃ view', l.step E (.tx tx header) = { l with
      state := { (runStakingCall E tx header l.db { l.state with balances := debited }).2 with
        balances := view' } } := by
  obtain ⟨result, view', hrun⟩ := executeStakingTx_run E header l.db l.state.vs l.state.delta h
  refine ⟨view', ?_⟩
  simp only [step, hrun]

theorem runStakingCall_balanced_iff (tx : SignedTransaction) (s : StakingState StateView)
    (hsane : DelegationsSane l.db s) (hbalanced : DelegationsBalanced l.db s) :
    DelegationsBalanced l.db (runStakingCall E tx header l.db s).2 ↔
      ∀ call, E.decodeStakingCall tx.tx.data = .ok call →
        DelegationFits l.db tx.sender tx.tx.valueU128 call s := by
  cases hcall : E.decodeStakingCall tx.tx.data with
  | error e =>
    have hrun : runStakingCall E tx header l.db s = (none, s) := by
      unfold runStakingCall
      rw [hcall]
    rw [hrun]
    refine ⟨fun _ call hok => ?_, fun _ => hbalanced⟩
    cases hok
  | ok call =>
    have hfits : (∀ call', Except.ok call = (.ok call' : Except StakingError StakingTx) →
        DelegationFits l.db tx.sender tx.tx.valueU128 call' s) ↔
        DelegationFits l.db tx.sender tx.tx.valueU128 call s :=
      ⟨fun h => h call rfl, fun h call' heq => Except.ok.inj heq ▸ h⟩
    rw [hfits]
    by_cases happeal : ∃ id, call = .fileAppeal id
    · obtain ⟨id, rfl⟩ := happeal
      have hrun : runStakingCall E tx header l.db s = (none, s) := by
        unfold runStakingCall
        rw [hcall]
      rw [hrun]
      refine ⟨fun _ validator v heq => ?_, fun _ => hbalanced⟩
      cases heq
    · rw [runStakingCall_dispatched E header l.db s hcall fun id heq => happeal ⟨id, heq⟩]
      exact dispatchStakingTx_balanced_iff E.bls hsane hbalanced

variable (step : StakingStep)

theorem step_sane (h : DelegationsSane l.db l.state) :
    DelegationsSane (l.step E step).db (l.step E step).state := by
  cases step with
  | tx tx header =>
    cases hpre : preflight tx l.state.balances with
    | error e => rwa [step_tx_refused E l header hpre]
    | ok debited =>
      obtain ⟨view', hstep⟩ := step_tx_accepted E l header hpre
      obtain ⟨call, heffect⟩ := runStakingCall_effect E header l.db tx
        { l.state with balances := debited }
      have hafter := heffect.sane ⟨h.bounded, h.unregistered⟩
      rw [hstep]
      exact ⟨hafter.bounded, hafter.unregistered⟩
  | commit view =>
    refine ⟨h.bounded, fun addr hnone => ?_⟩
    exact (l.state.delta.recorded_commit l.db _ _ addr).trans (h.unregistered addr hnone)

theorem step_balanced_iff (hsane : DelegationsSane l.db l.state) (hbalanced : l.Balanced) :
    (l.step E step).Balanced ↔ l.Fits E step := by
  cases step with
  | tx tx header =>
    cases hpre : preflight tx l.state.balances with
    | error e =>
      rw [step_tx_refused E l header hpre]
      refine ⟨fun _ ⟨debited, hok⟩ => ?_, fun _ => hbalanced⟩
      cases hpre.symm.trans hok
    | ok debited =>
      obtain ⟨view', hstep⟩ := step_tx_accepted E l header hpre
      rw [hstep]
      have hiff := runStakingCall_balanced_iff E l header tx
        { l.state with balances := debited } ⟨hsane.bounded, hsane.unregistered⟩ hbalanced
      exact hiff.trans ⟨fun h _ => h, fun h => h ⟨debited, hpre⟩⟩
  | commit view =>
    refine ⟨fun _ => trivial, fun _ addr v hv => ?_⟩
    exact (hbalanced addr v hv).trans (l.state.delta.recorded_commit l.db _ _ addr).symm

end

/-- From an empty registry, in every sequence of transactions that succeed, fail or are not
accepted, the ledgers of delegated stake are equal all along exactly when every delegation
fits. -/
theorem delegations_balanced_iff (steps : List StakingStep)
    (hempty : ∀ addr, l.state.vs.get addr = none)
    (hrecorded : ∀ addr, l.state.delta.recorded l.db addr = 0) :
    Always (step E) Balanced l steps ↔ Meets (step E) (Fits E) l steps := by
  have hsane : DelegationsSane l.db l.state := by
    refine ⟨fun addr v hv => ?_, fun addr _ => hrecorded addr⟩
    cases (hempty addr).symm.trans hv
  have hbalanced : l.Balanced := by
    intro addr v hv
    cases (hempty addr).symm.trans hv
  exact always_iff_meets (I := fun l => DelegationsSane l.db l.state)
    (fun l step h => l.step_sane E step h)
    (fun l step hs hb => l.step_balanced_iff E step hs hb) hsane hbalanced

/-- Engines for which the payload `[1]` registers the sender, `[2]` delegates `2 ^ 127` and
`[3]` delegates 5, both to validator 1. -/
def sampleEngines : Engines :=
  { Engines.idle with
    bls := ⟨fun _ => none, fun _ => none, fun _ _ _ => true⟩
    decodeStakingCall := fun data =>
      if data = [1] then .ok (.registerValidator [] [] minSelfStake 0)
      else if data = [2] then .ok (.delegate 1 (2 ^ 127))
      else if data = [3] then .ok (.delegate 1 5)
      else .error (.badPayload "rlp") }

def sampleLedger : StakingLedger :=
  let funded := { AccountState.default with balance := .ofNat 256 (2 ^ 127 + 2 ^ 100) }
  ⟨.empty, ⟨.new, .new,
    ((StateView.new.seedAccount 1 funded).seedAccount 2 funded).seedAccount 3 funded⟩⟩

def sampleTx (sender : Address) (value : Nat) (payload : Bytes) : StakingStep :=
  .tx (.basic sender 0 (some stakingPrecompileAddr) (.ofNat 256 value) payload) (Block.first []).header

theorem delegations_balanced_sample : Always (step sampleEngines) Balanced sampleLedger
    [sampleTx 1 minSelfStake [1], sampleTx 2 5 [3]] := by
  refine (delegations_balanced_iff sampleEngines sampleLedger _ (fun _ => rfl) fun _ => rfl).mpr ?_
  have hregister : sampleEngines.decodeStakingCall [1] =
      .ok (.registerValidator [] [] minSelfStake 0) := by decide
  have hdelegate : sampleEngines.decodeStakingCall [3] = .ok (.delegate 1 5) := by decide
  have hvalidator : ∀ v ∈ (sampleLedger.step sampleEngines
      (sampleTx 1 minSelfStake [1])).state.vs.get 1,
      v.delegatedStake + 5 < 2 ^ 128 ∧ v.status ≠ .tombstoned := by decide +kernel
  refine meets_cons.mpr ⟨fun _ call hcall => ?_, meets_cons.mpr ⟨fun _ call hcall => ?_, meets_nil⟩⟩
  · cases hregister.symm.trans hcall
    intro validator v heq
    cases heq
  cases hdelegate.symm.trans hcall
  intro validator v heq _ hv
  cases heq
  exact ⟨fun _ => .inl (hvalidator v hv).1, fun htomb => absurd htomb (hvalidator v hv).2⟩

/-- Two delegations of `2 ^ 127` are both recorded, but the stake of the validator stops one
short of their sum. -/
theorem delegations_saturate : ¬ Always (step sampleEngines) Balanced sampleLedger
    [sampleTx 1 minSelfStake [1], sampleTx 2 (2 ^ 127) [2], sampleTx 3 (2 ^ 127) [2]] := by
  intro halways
  have hlast := halways _ [] (List.append_nil _).symm
  generalize hl : [sampleTx 1 minSelfStake [1], sampleTx 2 (2 ^ 127) [2],
    sampleTx 3 (2 ^ 127) [2]].foldl (step sampleEngines) sampleLedger = l at hlast
  have hunequal : ∃ v ∈ l.state.vs.get 1, v.delegatedStake ≠ l.state.delta.recorded l.db 1 := by
    rw [← hl]
    decide +kernel
  obtain ⟨v, hv, hne⟩ := hunequal
  exact hne (hlast 1 v hv)

end StakingLedger

end ZbxChain
