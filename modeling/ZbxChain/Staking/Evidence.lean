import ZbxChain.Consensus.Certificate
import ZbxChain.Staking.Validator

/-!
# The slashing registry

`SlashingRegistryV2` of `zbx-staking/src/slashing_v2.rs`: slash records with an appeal window. A
record is named by the hash of its offender, the block it was submitted in and the type of its
evidence.
-/

namespace ZbxChain

inductive EvidenceType
  | doubleSign
  | livenessFault
  | consecutiveMiss
  | invalidBlock
  | surrogateVote
  deriving DecidableEq

inductive EvidenceStatus
  | pending
  | appealed
  | confirmed
  | rejected
  | overturned
  deriving DecidableEq

structure DoubleSignProof where
  height : UInt64
  round : UInt64
  phase : UInt8
  blockA : H256
  blockB : H256
  sigA : Bytes
  sigB : Bytes
  validator : Address
  validatorBlsPubkey : Bytes
  deriving DecidableEq

inductive SlashEvidenceV2
  | doubleSign (proof : DoubleSignProof)
  | livenessFault (epoch missed total : UInt64)
  | consecutiveMiss (fromBlock count : UInt64)
  | invalidBlock (blockHash : H256) (proposer : Address)
  | surrogateVote (voteHash blockA blockB : H256) (validator : Address)
  deriving DecidableEq

namespace SlashEvidenceV2

def evidenceType : SlashEvidenceV2 → EvidenceType
  | .doubleSign _ => .doubleSign
  | .livenessFault .. => .livenessFault
  | .consecutiveMiss .. => .consecutiveMiss
  | .invalidBlock .. => .invalidBlock
  | .surrogateVote .. => .surrogateVote

def offender : SlashEvidenceV2 → Option Address
  | .doubleSign proof => some proof.validator
  | .invalidBlock _ proposer => some proposer
  | .surrogateVote _ _ _ validator => some validator
  | _ => none

end SlashEvidenceV2

/-- `evidence_to_double_sign` of `persistence.rs`. -/
def evidenceToDoubleSign (ev : EquivocationEvidence) : SlashEvidenceV2 :=
  .doubleSign {
    height := ev.voteA.data.blockNumber
    round := ev.round
    phase := ev.phase
    blockA := ev.voteA.data.blockHash
    blockB := ev.voteB.data.blockHash
    sigA := ev.voteA.signature
    sigB := ev.voteB.signature
    validator := ev.validator
    validatorBlsPubkey := ev.pubkey }

structure SlashEvidenceRecord where
  id : H256
  evidenceType : EvidenceType
  offender : Address
  submittedBy : Address
  submitBlock : UInt64
  evidence : SlashEvidenceV2
  status : EvidenceStatus
  baseSlashWei : Nat
  finalSlashWei : Nat
  appealDeadline : UInt64
  reporters : List Address
  jailedBySlash : Bool
  burnApplied : Bool
  formatVersion : UInt8
  deriving DecidableEq

def appealWindowBlocks : UInt64 := 172800

def evidenceBondWei : Nat := 100 * 10 ^ 18

def slashRecordFormatVersion : UInt8 := 1

def epochLengthBlocks : UInt64 := 172800

def EvidenceType.discriminant : EvidenceType → UInt8
  | .doubleSign => 0
  | .livenessFault => 1
  | .consecutiveMiss => 2
  | .invalidBlock => 3
  | .surrogateVote => 4

namespace SlashEvidenceRecord

/-- What `compute_id_for_offender` hashes. -/
def idPreimage (offender : Address) (submitBlock : UInt64) (evidenceType : EvidenceType) : Bytes :=
  offender.toBytes ++ Keccak.leBytes 8 submitBlock.toNat ++ [evidenceType.discriminant]

def computeIdForOffender (offender : Address) (submitBlock : UInt64)
    (evidenceType : EvidenceType) : H256 :=
  sha3_256 (idPreimage offender submitBlock evidenceType)

def computeId (evidence : SlashEvidenceV2) (offender : Address) (submitBlock : UInt64) : H256 :=
  computeIdForOffender offender submitBlock evidence.evidenceType

end SlashEvidenceRecord

/-! ## Amounts -/

def baseSlashBps : EvidenceType → Nat
  | .doubleSign => 500
  | .livenessFault => 1
  | .consecutiveMiss => 100
  | .invalidBlock => 2000
  | .surrogateVote => 500

/-- `base × (1 + 3 × slashed / total)²`, at most 100 %. -/
def correlatedSlashBps (baseBps : Nat) (slashedThisEpoch totalValidators : UInt64) : Nat :=
  if totalValidators = 0 then baseBps
  else
    let ratioBps := slashedThisEpoch.toNat * 10000 / totalValidators.toNat
    let factor := 10000 + 3 * ratioBps
    let factorSq := factor * factor % 2 ^ 128 / 10000
    min (baseBps * factorSq % 2 ^ 128 / 10000) 10000

def slashAmountWei (stakeWei slashBps : Nat) : Nat :=
  if stakeWei * slashBps < 2 ^ 128 then stakeWei * slashBps / 10000
  else min (stakeWei / 10000 * slashBps) (2 ^ 128 - 1)

structure FinalizedSlash where
  slashWei : Nat
  totalReward : Nat
  splits : List (Address × Nat)

def recomputeSplits (r : SlashEvidenceRecord) : FinalizedSlash :=
  let totalReward := r.finalSlashWei * 500 % 2 ^ 128 / 10000
  let reporters := ((r.submittedBy :: r.reporters).insertionSort (· ≤ ·)).dedup
  let perReporter := totalReward / reporters.length
  ⟨r.finalSlashWei, totalReward, reporters.map fun reporter => (reporter, perReporter)⟩

/-! ## The registry -/

structure SlashingRegistryV2 where
  records : Map H256 SlashEvidenceRecord
  epochSlashCount : Map (UInt64 × Address) UInt64
  pendingBonds : Map H256 (Address × Nat)
  totalValidators : UInt64

inductive SubmitOutcome
  | newRecord (id : H256)
  | coWitnessAdded (id : H256)
  | alreadyRecorded (id : H256)

def SubmitOutcome.recordId : SubmitOutcome → H256
  | .newRecord id | .coWitnessAdded id | .alreadyRecorded id => id

namespace SlashingRegistryV2

def new (totalValidators : UInt64) : SlashingRegistryV2 := ⟨∅, ∅, ∅, totalValidators⟩

variable (reg : SlashingRegistryV2) (id : H256)

def getRecord : Option SlashEvidenceRecord :=
  reg.records.lookup id

def putRecord (r : SlashEvidenceRecord) : SlashingRegistryV2 :=
  { reg with records := reg.records.insert id r }

def newRecord (evidence : SlashEvidenceV2) (offender submittedBy : Address)
    (currentBlock currentEpoch : UInt64) (offenderStake : Nat) : SlashEvidenceRecord :=
  let evidenceType := evidence.evidenceType
  let slashed := (reg.epochSlashCount.lookup (currentEpoch, offender)).getD 0 + 1
  let baseBps := baseSlashBps evidenceType
  let corrBps := correlatedSlashBps baseBps slashed reg.totalValidators
  { id := SlashEvidenceRecord.computeId evidence offender currentBlock
    evidenceType := evidenceType
    offender := offender
    submittedBy := submittedBy
    submitBlock := currentBlock
    evidence := evidence
    status := .pending
    baseSlashWei := slashAmountWei offenderStake baseBps
    finalSlashWei := slashAmountWei offenderStake corrBps
    appealDeadline := currentBlock + appealWindowBlocks
    reporters := []
    jailedBySlash := false
    burnApplied := false
    formatVersion := slashRecordFormatVersion }

def submitEvidence (evidence : SlashEvidenceV2) (submittedBy : Address)
    (currentBlock currentEpoch : UInt64) (offenderStake : Nat) :
    Except StakingError (SubmitOutcome × SlashingRegistryV2) :=
  match evidence.offender with
  | none => .error (.invalidEvidence "cannot determine offender")
  | some offender =>
    let id := SlashEvidenceRecord.computeId evidence offender currentBlock
    match reg.getRecord id with
    | some existing =>
      if existing.status ≠ .pending then .ok (.alreadyRecorded id, reg)
      else if existing.submittedBy = submittedBy ∨ existing.reporters.any (· = submittedBy) then
        .ok (.alreadyRecorded id, reg)
      else
        let reg := reg.putRecord id { existing with reporters := existing.reporters ++ [submittedBy] }
        .ok (.coWitnessAdded id,
          { reg with pendingBonds := reg.pendingBonds.insert id (submittedBy, evidenceBondWei) })
    | none =>
      let r := reg.newRecord evidence offender submittedBy currentBlock currentEpoch offenderStake
      let reg := reg.putRecord id r
      .ok (.newRecord id,
        { reg with pendingBonds := reg.pendingBonds.insert id (submittedBy, evidenceBondWei) })

def modifyRecord (f : SlashEvidenceRecord → SlashEvidenceRecord) : SlashingRegistryV2 :=
  match reg.getRecord id with
  | some r => reg.putRecord id (f r)
  | none => reg

def setJailedBySlash (jailed : Bool) : SlashingRegistryV2 :=
  reg.modifyRecord id fun r => { r with jailedBySlash := jailed }

def setBurnApplied : SlashingRegistryV2 :=
  reg.modifyRecord id fun r => { r with burnApplied := true }

def fileAppeal (currentBlock : UInt64) : Except StakingError SlashingRegistryV2 :=
  match reg.getRecord id with
  | none => .error .evidenceNotFound
  | some r =>
    if r.status ≠ .pending then .error .appealNotAllowed
    else if r.appealDeadline < currentBlock then .error .appealWindowExpired
    else .ok (reg.putRecord id { r with status := .appealed })

def fileAppealForTx (sender : Address)
    (currentBlock : UInt64) : Except StakingError SlashingRegistryV2 :=
  match reg.getRecord id with
  | none => .error .evidenceNotFound
  | some r =>
    if r.offender ≠ sender then .error .appealNotByOffender else reg.fileAppeal id currentBlock

/-- `none` when the record is not pending, or its window is still open. -/
def finalizeSlash (currentBlock : UInt64) :
    Except StakingError (Option FinalizedSlash × SlashingRegistryV2) :=
  match reg.getRecord id with
  | none => .error .evidenceNotFound
  | some r =>
    if r.status ≠ .pending then .ok (none, reg)
    else if currentBlock ≤ r.appealDeadline then .ok (none, reg)
    else
      let slash := r.finalSlashWei
      let totalReward := slash * 500 % 2 ^ 128 / 10000
      let reporters := ((r.submittedBy :: r.reporters).insertionSort (· ≤ ·)).dedup
      let perReporter := totalReward / reporters.length
      let splits := reporters.map fun reporter => (reporter, perReporter)
      .ok (some ⟨slash, totalReward, splits⟩, reg.putRecord id { r with
        status := .confirmed
        formatVersion := slashRecordFormatVersion
        burnApplied := false })

theorem finalizeSlash_eq (currentBlock : UInt64) : reg.finalizeSlash id currentBlock =
    match reg.getRecord id with
    | none => .error .evidenceNotFound
    | some r =>
      if r.status ≠ .pending then .ok (none, reg)
      else if currentBlock ≤ r.appealDeadline then .ok (none, reg)
      else .ok (some (recomputeSplits r), reg.putRecord id { r with
        status := .confirmed
        formatVersion := slashRecordFormatVersion
        burnApplied := false }) := rfl

def overturnSlash : Except StakingError (Nat × SlashingRegistryV2) :=
  match reg.getRecord id with
  | none => .error .evidenceNotFound
  | some r =>
    if r.status ≠ .appealed then .error .overturnNotAllowed
    else .ok (r.finalSlashWei, reg.putRecord id { r with status := .overturned })

def rejectAppeal : Except StakingError (Nat × SlashingRegistryV2) :=
  match reg.getRecord id with
  | none => .error .evidenceNotFound
  | some r =>
    if r.status ≠ .appealed then .error .overturnNotAllowed
    else .ok (r.finalSlashWei, reg.putRecord id { r with status := .confirmed })

def lifetimeConfirmedSlashes (offender : Address) : Nat :=
  (reg.records.entries.filter fun e => e.2.status = .confirmed ∧ e.2.offender = offender).length

/-- A record from disk; one that is not overturned counts for its epoch again. -/
def insertRehydratedRecord (r : SlashEvidenceRecord) : SlashingRegistryV2 :=
  let key := (r.submitBlock / epochLengthBlocks, r.offender)
  let counted := r.status = .confirmed ∨ r.status = .pending ∨ r.status = .appealed
  let reg := if counted then
      { reg with epochSlashCount :=
          reg.epochSlashCount.insert key ((reg.epochSlashCount.lookup key).getD 0 + 1) }
    else reg
  reg.putRecord r.id r

end SlashingRegistryV2

end ZbxChain
