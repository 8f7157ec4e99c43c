import ZbxChain.Execution.Executor
import ZbxChain.Lib.Runs
import ZbxChain.Staking.StatusChanges

/-!
# What happens to the validators of a node

The node keeps one validator set for its staking transactions, its slashing pipeline, its
detector and its commits. `syncValidatorSet` is the part of `do_commit` (`consensus.rs`)
that brings the set up to date after a block.
-/

namespace ZbxChain

structure ConsensusConfig where
  validators : List (Address × Bytes)
  epochLength : UInt64

namespace ConsensusConfig

def atEpochBoundary (cfg : ConsensusConfig) (height : UInt64) : Bool :=
  height % cfg.epochLength = 0

def freshValidator (entry : Address × Bytes) (height epoch : UInt64) : Validator where
  address := entry.1
  blsPubkey := entry.2
  selfStake := ValidatorSet.minSelfStake
  delegatedStake := 0
  commissionBps := 500
  status := .active
  lastSignedBlock := height
  pendingRewards := 0
  delegatorRewardPool := 0
  poolDenominator := 0
  registeredEpoch := epoch

def reactivate (height : UInt64) (v : Validator) : Validator :=
  { v with
    lastSignedBlock := height
    status := if v.status = .jailed then v.status else .active }

def syncValidator (cfg : ConsensusConfig) (height epoch : UInt64) (vs : ValidatorSet)
    (entry : Address × Bytes) : ValidatorSet :=
  let vs := match vs.get entry.1 with
    | some _ => vs
    | none => vs.put entry.1 (freshValidator entry height epoch)
  if cfg.atEpochBoundary height then vs.modify entry.1 (reactivate height) else vs

def syncValidatorSet (cfg : ConsensusConfig) (height epoch : UInt64) (vs : ValidatorSet) :
    ValidatorSet :=
  let vs := cfg.validators.foldl (cfg.syncValidator height epoch)
    { vs with currentEpoch := epoch }
  if cfg.atEpochBoundary height then vs.electActiveSet else vs

end ConsensusConfig

/-- The parts of a node that write validators; the set itself is in the pipeline. -/
structure ValidatorNode where
  pipeline : SlashingPipeline
  detector : SlashingDetector

/-- One of the things that can happen to the validators of a node. A staking call meets any
database, write set and balances, and a list of slash events is applied one by one. -/
inductive ValidatorStep
  | register (address : Address) (blsPubkey : Bytes) (selfStake commissionBps : Nat)
  | staking (bls : Bls) (call : StakingTx) (sender : Address) (sent : Nat) (height : UInt64)
      (db : ZbxDb) (delta : StakingDelta) (balances : StateView)
  | elect
  | slash (event : SlashEvent)
  | ingest (ev : EquivocationEvidence) (submitter : Address) (block epoch : UInt64) (stake : Nat)
  | tick (block : UInt64)
  | appeal (id : H256) (sender : Address) (value : Nat) (height : UInt64)
  | overturn (id : H256)
  | commit (height epoch : UInt64)

namespace ValidatorNode

def validators (n : ValidatorNode) : ValidatorSet := n.pipeline.validators

def withValidators (n : ValidatorNode) (vs : ValidatorSet) : ValidatorNode :=
  { n with pipeline := { n.pipeline with validators := vs } }

def start (totalValidators : UInt64) : ValidatorNode := ⟨.new totalValidators .new, .new⟩

/-- What fails changes nothing, except that a tick and a staking call keep what they did
until they failed. -/
def step (cfg : ConsensusConfig) (verifySingle : VerifySingle) (n : ValidatorNode) :
    ValidatorStep → ValidatorNode
  | .register address blsPubkey selfStake commissionBps =>
    match n.validators.register address blsPubkey selfStake commissionBps with
    | .ok vs => n.withValidators vs
    | .error _ => n
  | .staking bls call sender sent height db delta balances =>
    n.withValidators (finalState
      (dispatchStakingTx bls call sender sent height db ⟨n.validators, delta, balances⟩)).vs
  | .elect => n.withValidators n.validators.electActiveSet
  | .slash event =>
    let (detector, vs) := n.detector.applySlashes [event] n.validators
    { n.withValidators vs with detector := detector }
  | .ingest ev submitter block epoch stake =>
    match n.pipeline.ingestEquivocation verifySingle ev submitter block epoch stake with
    | .ok (_, p) => { n with pipeline := p }
    | .error _ => n
  | .tick block => { n with pipeline := finalState (SlashingPipeline.tickFinalize block n.pipeline) }
  | .appeal id sender value height =>
    match dispatchFileAppealTx n.pipeline id sender value height with
    | .ok (_, p) => { n with pipeline := p }
    | .error _ => n
  | .overturn id =>
    match n.pipeline.overturnAndRefund id with
    | .ok (_, p) => { n with pipeline := p }
    | .error _ => n
  | .commit height epoch => n.withValidators (cfg.syncValidatorSet height epoch n.validators)

end ValidatorNode

/-!
## Tombstones

A tombstoned validator should stay so and out of the active set, whatever happens to the
validators of a node (`ValidatorStep`).
-/

open ValidatorSet SlashingPipeline

/-! ## Commits -/

namespace ConsensusConfig

variable (cfg : ConsensusConfig) (height epoch : UInt64)

theorem reactivate_not_tombstoned (height : UInt64) (v : Validator) :
    (reactivate height v).status ≠ .tombstoned := by
  unfold reactivate
  split
  · rename_i hjailed
    rw [hjailed]
    simp
  · simp

def admitted (vs : ValidatorSet) (entry : Address × Bytes) : ValidatorSet :=
  match vs.get entry.1 with
  | some _ => vs
  | none => vs.put entry.1 (freshValidator entry height epoch)

variable (vs : ValidatorSet) (entry : Address × Bytes)

theorem syncValidator_eq : cfg.syncValidator height epoch vs entry =
      if cfg.atEpochBoundary height then
        (admitted height epoch vs entry).modify entry.1 (reactivate height)
      else admitted height epoch vs entry := rfl

theorem sound_admitted {vs : ValidatorSet} (h : vs.Sound) :
    (admitted height epoch vs entry).Sound := by
  unfold admitted
  split
  · exact h
  · exact h.put rfl (by simp [freshValidator])

variable (addr : Address)

theorem statusOf_admitted : (admitted height epoch vs entry).statusOf addr = some .tombstoned ↔
      vs.statusOf addr = some .tombstoned := by
  unfold admitted
  split
  · exact Iff.rfl
  rename_i hnone
  rw [statusOf_put]
  split
  · rename_i heq
    subst heq
    unfold statusOf
    rw [hnone]
    simp [freshValidator]
  · exact Iff.rfl

theorem sound_syncValidator {vs : ValidatorSet} (h : vs.Sound) :
    (cfg.syncValidator height epoch vs entry).Sound := by
  have hadmitted := sound_admitted height epoch entry h
  rw [syncValidator_eq]
  split
  · unfold ValidatorSet.modify
    split
    · rename_i v hv
      refine hadmitted.put (hadmitted.keyed _ v hv) fun htomb => ?_
      exact absurd htomb (reactivate_not_tombstoned height v)
    · exact hadmitted
  · exact hadmitted

theorem statusOf_syncValidator :
    (cfg.syncValidator height epoch vs entry).statusOf addr = some .tombstoned ↔
      vs.statusOf addr = some .tombstoned ∧
        ¬ (cfg.atEpochBoundary height = true ∧ entry.1 = addr) := by
  rw [syncValidator_eq, ← statusOf_admitted height epoch vs entry addr]
  by_cases hboundary : cfg.atEpochBoundary height = true
  swap
  · rw [if_neg hboundary]
    exact ⟨fun ht => ⟨ht, fun hhit => hboundary hhit.1⟩, fun ht => ht.1⟩
  rw [if_pos hboundary]
  unfold ValidatorSet.modify
  split
  · rename_i v hv
    rw [statusOf_put]
    split
    · rename_i heq
      refine ⟨fun ht => absurd (Option.some.inj ht) (reactivate_not_tombstoned height v), ?_⟩
      exact fun ht => absurd ⟨hboundary, heq.symm⟩ ht.2
    · rename_i hne
      exact ⟨fun ht => ⟨ht, fun hhit => hne hhit.2.symm⟩, fun ht => ht.1⟩
  · rename_i hnone
    refine ⟨fun ht => ⟨ht, fun hhit => ?_⟩, fun ht => ht.1⟩
    unfold statusOf at ht
    rw [← hhit.2, hnone] at ht
    cases ht

variable (entries : List (Address × Bytes))

theorem sound_syncValidators {vs : ValidatorSet} (h : vs.Sound) :
    (entries.foldl (cfg.syncValidator height epoch) vs).Sound := by
  induction entries generalizing vs with
  | nil => exact h
  | cons entry rest ih => exact ih (cfg.sound_syncValidator height epoch entry h)

theorem statusOf_syncValidators (vs : ValidatorSet) (addr : Address) :
    (entries.foldl (cfg.syncValidator height epoch) vs).statusOf addr = some .tombstoned ↔
      vs.statusOf addr = some .tombstoned ∧
        ¬ (cfg.atEpochBoundary height = true ∧ addr ∈ entries.map (·.1)) := by
  induction entries generalizing vs with
  | nil => simp
  | cons entry rest ih =>
    refine (ih _).trans ?_
    rw [statusOf_syncValidator, List.map_cons, List.mem_cons, eq_comm (a := addr)]
    tauto

theorem sound_syncValidatorSet {vs : ValidatorSet} (h : vs.Sound) :
    (cfg.syncValidatorSet height epoch vs).Sound := by
  have hepoch : ValidatorSet.Sound { vs with currentEpoch := epoch } := ⟨h.keyed, h.retired⟩
  have hsynced := cfg.sound_syncValidators height epoch cfg.validators hepoch
  unfold syncValidatorSet
  split
  · exact (keeps_electActiveSet 0 _).sound hsynced
  · exact hsynced

theorem statusOf_syncValidatorSet :
    (cfg.syncValidatorSet height epoch vs).statusOf addr = some .tombstoned ↔
      vs.statusOf addr = some .tombstoned ∧
        ¬ (cfg.atEpochBoundary height = true ∧ addr ∈ cfg.validators.map (·.1)) := by
  have hsynced := cfg.statusOf_syncValidators height epoch cfg.validators
    { vs with currentEpoch := epoch } addr
  unfold syncValidatorSet
  split
  · exact (tombstoned_electActiveSet _ addr).trans hsynced
  · exact hsynced

end ConsensusConfig

/-! ## Whole runs -/

namespace ValidatorNode

variable (cfg : ConsensusConfig) (verifySingle : VerifySingle)

def Tombstoned (addr : Address) (n : ValidatorNode) : Prop :=
  n.validators.statusOf addr = some .tombstoned

/-- The steps that leave the tombstone of a validator alone: no event of the detector that
jails it for the first time, and no start of an epoch while it is in the configuration. -/
def Spares (addr : Address) (n : ValidatorNode) : ValidatorStep → Prop
  | .slash event => ¬ (event.validator = addr ∧ event.jailed = true ∧
      slashEventId event ∉ n.detector.processed)
  | .commit height _ => ¬ (cfg.atEpochBoundary height = true ∧ addr ∈ cfg.validators.map (·.1))
  | _ => True

theorem keeps_step (addr : Address) (n : ValidatorNode) {t : ValidatorStep}
    (hslash : ∀ event, t ≠ .slash event) (hcommit : ∀ height epoch, t ≠ .commit height epoch) :
    Keeps addr n.validators (n.step cfg verifySingle t).validators := by
  cases t with
  | register address blsPubkey selfStake commissionBps =>
    unfold step
    dsimp only
    split
    · rename_i vs hok
      exact keeps_register hok
    · exact .refl addr _
  | staking bls call sender sent height db delta balances =>
    have hends : Ends (StakingEffect db sender sent height call ⟨n.validators, delta, balances⟩) _ :=
      dispatchStakingTx_effect bls call ⟨n.validators, delta, balances⟩
    obtain ⟨success, heffect⟩ := hends.final
    exact heffect.keeps addr
  | elect => exact keeps_electActiveSet addr n.validators
  | slash event => exact absurd rfl (hslash event)
  | ingest ev submitter block epoch stake =>
    unfold step
    dsimp only
    split
    · rename_i id p hok
      show Keeps addr n.validators p.validators
      rw [validators_ingestEquivocation hok]
      exact .refl addr _
    · exact .refl addr _
  | tick block => exact keepsAll_tickFinalize block n.pipeline
  | appeal id sender value height =>
    unfold step
    dsimp only
    split
    · rename_i gas p hok
      show Keeps addr n.validators p.validators
      rw [validators_dispatchFileAppealTx hok]
      exact .refl addr _
    · exact .refl addr _
  | overturn id =>
    unfold step
    dsimp only
    split
    · rename_i result p hok
      exact keeps_overturnAndRefund hok
    · exact .refl addr _
  | commit height epoch => exact absurd rfl (hcommit height epoch)

variable (n : ValidatorNode) (t : ValidatorStep)

theorem step_sound (h : n.validators.Sound) : (n.step cfg verifySingle t).validators.Sound := by
  by_cases hslash : ∃ event, t = .slash event
  · obtain ⟨event, rfl⟩ := hslash
    exact sound_applySlashes n.detector event h
  by_cases hcommit : ∃ height epoch, t = .commit height epoch
  · obtain ⟨height, epoch, rfl⟩ := hcommit
    exact cfg.sound_syncValidatorSet height epoch h
  exact (keeps_step cfg verifySingle 0 n (fun event heq => hslash ⟨event, heq⟩)
    fun height epoch heq => hcommit ⟨height, epoch, heq⟩).sound h

theorem step_tombstoned_iff {addr : Address} (h : n.Tombstoned addr) :
    (n.step cfg verifySingle t).Tombstoned addr ↔ n.Spares cfg addr t := by
  cases t with
  | slash event => exact statusOf_applySlashes_iff n.detector event h
  | commit height epoch =>
    exact (cfg.statusOf_syncValidatorSet height epoch n.validators addr).trans
      ⟨fun hafter => hafter.2, fun hspares => ⟨h, hspares⟩⟩
  | _ =>
    refine ⟨fun _ => trivial, fun _ => ?_⟩
    refine (keeps_step cfg verifySingle addr n ?_ ?_).tombstoned h
    · rintro event ⟨⟩
    · rintro height epoch ⟨⟩

/-- Once a run has tombstoned a validator, it stays tombstoned and out of the active set in
all that follows exactly when every step spares it. -/
theorem tombstone_permanent_iff (totalValidators : UInt64) (earlier later : List ValidatorStep)
    (addr : Address)
    (h : Tombstoned addr (earlier.foldl (step cfg verifySingle) (start totalValidators))) :
    Always (step cfg verifySingle) (fun n => n.Tombstoned addr ∧ addr ∉ n.validators.activeSet)
        (earlier.foldl (step cfg verifySingle) (start totalValidators)) later ↔
      Meets (step cfg verifySingle) (Spares cfg addr)
        (earlier.foldl (step cfg verifySingle) (start totalValidators)) later := by
  have hsound : ((earlier.foldl (step cfg verifySingle)
      (start totalValidators)).validators).Sound := by
    refine List.foldlRecOn (motive := fun n : ValidatorNode => n.validators.Sound) earlier _ ?_ ?_
    · refine ⟨fun addr v hv => ?_, fun addr ht => ?_⟩
      · cases hv
      · cases ht
    · exact fun n hn t _ => step_sound cfg verifySingle n t hn
  refine always_iff_meets (I := fun n => n.validators.Sound)
    (fun n t hn => step_sound cfg verifySingle n t hn) (fun n t hn hp => ?_) hsound
    ⟨h, hsound.retired addr h⟩
  refine ⟨fun hafter => (step_tombstoned_iff cfg verifySingle n t hp.1).mp hafter.1, fun hc => ?_⟩
  have hafter := (step_tombstoned_iff cfg verifySingle n t hp.1).mpr hc
  exact ⟨hafter, (step_sound cfg verifySingle n t hn).retired addr hafter⟩

def sampleConfig : ConsensusConfig := ⟨[(7, [])], 10⟩

def sampleTombstoned : List ValidatorStep :=
  let votes (round : UInt64) : EquivocationEvidence :=
    ⟨7, round, 1, ⟨⟨1, round, 1, 0⟩, 7, []⟩, ⟨⟨2, round, 1, 0⟩, 7, []⟩, []⟩
  [.register 7 [] (2 * minSelfStake) 0, .ingest (votes 3) 8 3 0 1000, .ingest (votes 4) 8 4 0 1000,
    .tick 172805]

theorem tombstone_permanent_sample : Always (step sampleConfig fun _ _ _ => true)
      (fun n => n.Tombstoned 7 ∧ (7 : Address) ∉ n.validators.activeSet)
      (sampleTombstoned.foldl (step sampleConfig fun _ _ _ => true) (start 4))
      [.elect, .commit 172805 17280] := by
  have htomb : Tombstoned 7
      (sampleTombstoned.foldl (step sampleConfig fun _ _ _ => true) (start 4)) := by
    unfold Tombstoned
    decide +kernel
  refine (tombstone_permanent_iff sampleConfig (fun _ _ _ => true) 4 sampleTombstoned _ 7 htomb).mpr ?_
  have hinside : sampleConfig.atEpochBoundary 172805 = false := by decide
  refine meets_cons.mpr ⟨trivial, meets_cons.mpr ⟨fun hhit => ?_, meets_nil⟩⟩
  rw [hinside] at hhit
  cases hhit.1

/-- At the start of the next epoch the tombstoned validator is active and elected again. -/
theorem tombstone_lifted :
    let n := sampleTombstoned.foldl (step sampleConfig fun _ _ _ => true) (start 4)
    let n' := n.step sampleConfig (fun _ _ _ => true) (.commit 172810 17281)
    n.Tombstoned 7 ∧ n'.validators.statusOf 7 = some .active ∧
      (7 : Address) ∈ n'.validators.activeSet := by
  unfold Tombstoned
  decide +kernel

end ValidatorNode

end ZbxChain
