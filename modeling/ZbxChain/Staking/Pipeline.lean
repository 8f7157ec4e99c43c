import ZbxChain.Staking.Evidence
import ZbxChain.Staking.TxHandler

/-!
# The slashing pipeline

`SlashingPipeline` of `zbx-staking/src/pipeline.rs`, with the records and bonds of `EvidenceStore`
(`persistence.rs`): evidence is recorded, confirmed when its appeal window has closed, and its
slash is burnt from the stake of the offender. The raw evidence that the store also keeps is never
read back and is left out.
-/

namespace ZbxChain

inductive BondKind
  | whistleblower
  | appeal
  deriving DecidableEq

structure BondEntry where
  wei : Nat
  kind : BondKind
  deriving DecidableEq

structure EvidenceStore where
  records : Map H256 SlashEvidenceRecord
  bonds : Map (H256 × Address) BondEntry

namespace EvidenceStore

def new : EvidenceStore := ⟨∅, ∅⟩

variable (store : EvidenceStore) (id : H256)

def putRecord (r : SlashEvidenceRecord) : EvidenceStore :=
  { store with records := store.records.insert r.id r }

def putBond (reporter : Address) (bond : BondEntry) : EvidenceStore :=
  { store with bonds := store.bonds.insert (id, reporter) bond }

def deleteBond (reporter : Address) : EvidenceStore :=
  { store with bonds := store.bonds.erase (id, reporter) }

def loadAllRecords : List SlashEvidenceRecord :=
  (store.records.entries.insertionSort fun a b => a.1 ≤ b.1).map (·.2)

def loadRecordsReadyToFinalize (currentBlock : UInt64) : List SlashEvidenceRecord :=
  store.loadAllRecords.filter fun r => r.status = .pending ∧ r.appealDeadline < currentBlock

def loadRecordsWithUnappliedBurn : List SlashEvidenceRecord :=
  store.loadAllRecords.filter fun r =>
    slashRecordFormatVersion ≤ r.formatVersion ∧ r.status = .confirmed ∧ r.burnApplied = false

def listBondsForRecord : List (Address × BondEntry) :=
  store.bonds.entries.filterMap fun e => if e.1.1 = id then some (e.1.2, e.2) else none

end EvidenceStore

/-- The validator set is the one that the node shares with its other parts. -/
structure SlashingPipeline where
  store : EvidenceStore
  registry : SlashingRegistryV2
  validators : ValidatorSet

structure AppliedSlash where
  recordId : H256
  offender : Address
  burnWei : Nat
  whistleblowerWei : Nat
  whistleblower : Address
  reporters : List Address
  splits : List Nat
  jailed : Bool
  tombstoned : Bool

structure AppliedOverturn where
  recordId : H256
  offender : Address
  refundedWei : Nat
  appealBondRefundedWei : Nat
  whistleblowerBondsForfeitedWei : Nat
  unjailed : Bool

/-! ## Burning a stake -/

/-- The status of an offender after a slash; a tombstone stays. -/
def ValidatorStatus.slashed (status : ValidatorStatus) (forceTombstone : Bool) : ValidatorStatus :=
  match status, forceTombstone with
  | .tombstoned, _ => .tombstoned
  | _, true => .tombstoned
  | .active, false => .jailed
  | status, false => status

/-- Add to the rewards of a validator; other reporters get nothing here. -/
def ValidatorSet.creditReporter (vs : ValidatorSet) (split : Address × Nat) : ValidatorSet :=
  match vs.get split.1 with
  | some w => vs.put split.1 { w with pendingRewards := satAddU128 w.pendingRewards split.2 }
  | none => vs

/-- `apply_slash_burn_v2`: whether the offender is newly jailed, newly tombstoned, and the
new validator set. -/
def applySlashBurnV2 (vs : ValidatorSet) (offender : Address) (slashWei : Nat)
    (splits : List (Address × Nat)) (forceTombstone : Bool) : (Bool × Bool) × ValidatorSet :=
  let (flags, vs) := match vs.get offender with
    | some v =>
      let status := v.status.slashed forceTombstone
      ((decide (v.status = .active ∧ status = .jailed),
        decide (v.status ≠ .tombstoned ∧ status = .tombstoned)),
        vs.put offender { v with
          selfStake := v.selfStake - min slashWei v.selfStake
          status := status })
    | none => ((false, false), vs)
  let vs := splits.foldl ValidatorSet.creditReporter vs
  (flags, { vs with activeSet := vs.activeSet.filter (· ≠ offender) })

namespace SlashingPipeline

def new (totalValidators : UInt64) (validators : ValidatorSet) : SlashingPipeline :=
  ⟨.new, .new totalValidators, validators⟩

variable (p : SlashingPipeline) (r : SlashEvidenceRecord)

def persistRecord (id : H256) : SlashingPipeline :=
  match p.registry.getRecord id with
  | some r => { p with store := p.store.putRecord r }
  | none => p

def rehydrateFromDisk : SlashingPipeline :=
  let records := p.store.loadAllRecords
  { p with registry := records.foldl SlashingRegistryV2.insertRehydratedRecord p.registry }

def ingestEquivocation (verifySingle : VerifySingle) (p : SlashingPipeline)
    (ev : EquivocationEvidence) (submitter : Address) (currentBlock currentEpoch : UInt64)
    (offenderStake : Nat) : Except StakingError (H256 × SlashingPipeline) := do
  if ev.verify verifySingle then
    let (outcome, registry) ← p.registry.submitEvidence (evidenceToDoubleSign ev) submitter
      currentBlock currentEpoch offenderStake
    let p := { p with registry := registry }
    match outcome with
    | .newRecord id | .coWitnessAdded id =>
      let p := p.persistRecord id
      return (id, { p with store := p.store.putBond id submitter ⟨0, .whistleblower⟩ })
    | .alreadyRecorded id => return (id, p)
  else throw (.invalidEvidence "evidence failed BLS / structural re-verification")

abbrev PipelineM := EStateM StakingError SlashingPipeline

def forceTombstone : Bool :=
  2 ≤ p.registry.lifetimeConfirmedSlashes r.offender ∨ r.evidenceType = .invalidBlock

def markApplied (id : H256) (jailed : Bool) : SlashingPipeline :=
  let registry := p.registry.setBurnApplied id
  let registry := if jailed then registry.setJailedBySlash id true else registry
  { p with registry := registry }.persistRecord id

def appliedSlash (finalized : FinalizedSlash) (flags : Bool × Bool) : AppliedSlash where
  recordId := r.id
  offender := r.offender
  burnWei := finalized.slashWei
  whistleblowerWei := finalized.totalReward
  whistleblower := (finalized.splits.head?.map (·.1)).getD r.offender
  reporters := finalized.splits.map (·.1)
  splits := finalized.splits.map (·.2)
  jailed := flags.1
  tombstoned := flags.2

def burn (finalized : FinalizedSlash) : PipelineM AppliedSlash := do
  let p ← get
  let (flags, validators) := applySlashBurnV2 p.validators r.offender finalized.slashWei
    finalized.splits (p.forceTombstone r)
  set ({ p with validators := validators }.markApplied r.id (flags.1 || flags.2))
  return appliedSlash r finalized flags

def alreadySlashed : Bool :=
  match p.validators.get r.offender with
  | none => true
  | some v => v.selfStake < r.finalSlashWei ∨
      (r.jailedBySlash ∧ (v.status = .jailed ∨ v.status = .tombstoned)) ∨ v.status ≠ .active

def replayBurn (currentBlock : UInt64) (r : SlashEvidenceRecord) : PipelineM (List AppliedSlash) := do
  if currentBlock ≤ r.appealDeadline then return []
  else
    let p ← get
    if p.alreadySlashed r then
      set (p.markApplied r.id false)
      return []
    else
      let applied ← burn r (recomputeSplits r)
      return [applied]

def finalizeRecord (currentBlock : UInt64) (r : SlashEvidenceRecord) :
    PipelineM (List AppliedSlash) := do
  let p ← get
  match p.registry.finalizeSlash r.id currentBlock with
  | .error e => throw e
  | .ok (none, _) => return []
  | .ok (some finalized, registry) =>
    let p := { p with registry := registry }
    match registry.getRecord r.id with
    | none => throw (.persistence "post-finalize record vanished from registry")
    | some updated =>
      set (p.persistRecord r.id)
      -- only the kind of the evidence is taken from the registry
      let applied ← burn { r with evidenceType := updated.evidenceType } finalized
      return [applied]

def forRecords (f : SlashEvidenceRecord → PipelineM (List AppliedSlash)) :
    List SlashEvidenceRecord → PipelineM (List AppliedSlash)
  | [] => return []
  | r :: rest => do
    let first ← f r
    let others ← forRecords f rest
    return first ++ others

/-- The work of one block: replay what was left unburnt, then finalize what is ready. -/
def tickFinalize (currentBlock : UInt64) : PipelineM (List AppliedSlash) := do
  let replayed ← forRecords (replayBurn currentBlock) (← get).store.loadRecordsWithUnappliedBurn
  let finalized ← forRecords (finalizeRecord currentBlock)
    ((← get).store.loadRecordsReadyToFinalize currentBlock)
  return replayed ++ finalized

def bondTotal (kind : BondKind) (bonds : List (Address × BondEntry)) : Nat :=
  bonds.foldl (fun acc b => if b.2.kind = kind then satAddU128 acc b.2.wei else acc) 0

/-- The offender of an overturned slash: stake, jail and appeal bond go back. Only a slash
that was burnt gives back stake and freedom. -/
def refundOffender (appealBond : Nat) (v : Validator) : Validator :=
  { v with
    selfStake := satAddU128 v.selfStake (if r.burnApplied then r.finalSlashWei else 0)
    status := if r.burnApplied ∧ r.jailedBySlash ∧ v.status = .jailed then .pending else v.status
    pendingRewards := satAddU128 v.pendingRewards appealBond }

def refundedValidators (appealBond : Nat) : ValidatorSet :=
  match p.validators.get r.offender with
  | some v => p.validators.put r.offender (refundOffender r appealBond v)
  | none => p.validators

def overturnAndRefund (id : H256) : Except StakingError (AppliedOverturn × SlashingPipeline) := do
  match p.registry.getRecord id with
  | none => throw .evidenceNotFound
  | some r =>
    if r.status ≠ .appealed then throw .overturnNotAllowed
    else
      let bonds := p.store.listBondsForRecord id
      let appealBond := bondTotal .appeal bonds
      let validators := p.refundedValidators r appealBond
      let unjailed := match p.validators.get r.offender with
        | some v => decide (r.burnApplied ∧ r.jailedBySlash ∧ v.status = .jailed)
        | none => false
      let (_, registry) ← p.registry.overturnSlash id
      let p := { p with registry := registry, validators := validators }.persistRecord id
      let store := bonds.foldl (fun store b => store.deleteBond id b.1) p.store
      return (⟨id, r.offender, if r.burnApplied then r.finalSlashWei else 0, appealBond,
        bondTotal .whistleblower bonds, unjailed⟩, { p with store := store })

end SlashingPipeline

def appealBondWei : Nat := 1000 * 10 ^ 18

/-- `dispatch_file_appeal_tx`: the gas it costs. -/
def dispatchFileAppealTx (p : SlashingPipeline) (id : H256) (sender : Address) (sentValue : Nat)
    (currentHeight : UInt64) : Except StakingError (Nat × SlashingPipeline) := do
  if sentValue ≠ appealBondWei then throw (.appealBondMismatch sentValue appealBondWei)
  else
    let registry ← p.registry.fileAppealForTx id sender currentHeight
    let p := { p with
      registry := registry
      store := p.store.putBond id sender ⟨appealBondWei, .appeal⟩ }
    return (150000, p.persistRecord id)

end ZbxChain
