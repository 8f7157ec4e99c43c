import ZbxChain.Consensus.Certificate
import ZbxChain.Lib.FiniteMap
import ZbxChain.Types.Header

/-!
# The consensus state machine

`HotStuffConsensus` of `zbx-consensus/src/hotstuff.rs` with its validator set, block store and
pacemaker, and the node that the driver builds (`node/src/consensus.rs`). A call that fails keeps
what it changed before.
-/

namespace ZbxChain.HotStuff

/-! ## The validator set -/

/-- `new` asserts that there is a validator, and sets the quorum. -/
structure ValidatorSet where
  validators : List Address
  quorum : Nat
  epochSeed : H256
  nonempty : validators ≠ []
  quorum_eq : quorum = Quorum.size validators.length

namespace ValidatorSet

def new (validators : List Address) (h : validators ≠ []) : ValidatorSet :=
  ⟨validators, Quorum.size validators.length, 0, h, rfl⟩

def shuffleIndex (set : ValidatorSet) (round : UInt64) : Nat :=
  if set.epochSeed = 0 then round.toNat
  else beNat ((keccak256 (set.epochSeed.toBytes ++ beBytes 8 round.toNat)).toBytes.take 8)

def proposerForRound (set : ValidatorSet) (round : UInt64) : Address :=
  set.validators.get ⟨set.shuffleIndex round % set.validators.length,
    Nat.mod_lt _ (List.length_pos_iff.mpr set.nonempty)⟩

def setEpochSeed (seed : H256) (set : ValidatorSet) : ValidatorSet := { set with epochSeed := seed }

def contains (set : ValidatorSet) (addr : Address) : Bool := List.contains set.validators addr

end ValidatorSet

/-! ## Blocks and rounds -/

/-- Proposed blocks under their hashes. The oldest block makes room for a new one. -/
structure BlockStore where
  blocks : AList fun _ : H256 => SealedBlock
  insertionOrder : List H256
  capacity : Nat

namespace BlockStore

def new (capacity : Nat) : BlockStore := ⟨∅, [], capacity⟩

def evict (store : BlockStore) : BlockStore :=
  match store.insertionOrder with
  | [] => store
  | oldest :: rest => { store with blocks := store.blocks.erase oldest, insertionOrder := rest }

def add (block : SealedBlock) (store : BlockStore) : BlockStore :=
  let hash := block.header.hash
  if (store.blocks.lookup hash).isSome then store
  else
    let store := if store.capacity ≤ store.blocks.entries.length then store.evict else store
    { store with
      insertionOrder := store.insertionOrder ++ [hash]
      blocks := store.blocks.insert hash block }

def get (store : BlockStore) (hash : H256) : Option SealedBlock := store.blocks.lookup hash

theorem get_new (capacity : Nat) (hash : H256) : (new capacity).get hash = none := rfl

end BlockStore

structure Pacemaker where
  round : UInt64
  epoch : UInt64
  timeout : Nat
  consecutiveTimeouts : UInt32

namespace Pacemaker

def baseTimeout : Nat := 2000

def maxTimeout : Nat := 30000

def new : Pacemaker := ⟨1, 1, baseTimeout, 0⟩

def advanceRound (newRound epoch : UInt64) (p : Pacemaker) : Pacemaker :=
  if newRound ≤ p.round then p else ⟨newRound, epoch, baseTimeout, 0⟩

def backoff : Nat → Option Nat
  | 0 => some baseTimeout
  | n + 1 => (backoff n).bind fun ms => if ms * 3 < 2 ^ 64 then some (ms * 3 / 2) else none

def onTimeout (p : Pacemaker) : Pacemaker :=
  let consecutive := p.consecutiveTimeouts + 1
  { p with
    round := p.round + 1
    timeout := min ((backoff consecutive.toNat).getD maxTimeout) maxTimeout
    consecutiveTimeouts := consecutive }

end Pacemaker

/-! ## The node -/

inductive Phase
  | prepare
  | preCommit
  | commit
  deriving DecidableEq

def Phase.toUInt8 : Phase → UInt8
  | .prepare => 0
  | .preCommit => 1
  | .commit => 2

inductive ConsensusEvent
  | committed (block : SealedBlock) (qc : QuorumCertificate)
  | voteCast (vote : Vote)
  | timeout (round : UInt64)
  deriving DecidableEq

structure SeenVote where
  hash : H256
  vote : Vote
  pubkey : Bytes

structure HotStuffConsensus where
  myAddress : Address
  validatorSet : ValidatorSet
  safetyRules : SafetyRules
  pacemaker : Pacemaker
  blockStore : BlockStore
  voteAccumulators : AList fun _ : UInt64 × UInt8 => VoteAccumulator
  committedHeight : UInt64
  highestQc : Option QuorumCertificate
  seenVotes : AList fun _ : UInt64 × UInt8 × Address => SeenVote
  validatorPubkeys : AList fun _ : Address => Bytes
  droppedUnregistered : UInt64
  droppedPubkeyMismatch : UInt64
  droppedInvalidSig : UInt64
  droppedNonValidator : UInt64

namespace HotStuffConsensus

def new (myAddress : Address) (safetyRules : SafetyRules) (validatorSet : ValidatorSet) :
    HotStuffConsensus :=
  { myAddress := myAddress
    validatorSet := validatorSet
    safetyRules := safetyRules
    pacemaker := .new
    blockStore := .new 1024
    voteAccumulators := ∅
    committedHeight := 0
    highestQc := none
    seenVotes := ∅
    validatorPubkeys := ∅
    droppedUnregistered := 0
    droppedPubkeyMismatch := 0
    droppedInvalidSig := 0
    droppedNonValidator := 0 }

def updateValidatorSet (addrs : List Address) :
    EStateM (Fault ConsensusError) HotStuffConsensus Unit := fun n =>
  if h : addrs ≠ [] then
    .ok () { n with validatorSet := (ValidatorSet.new addrs h).setEpochSeed n.validatorSet.epochSeed }
  else .error .panic n

def rotateEpochSeed (seed : H256) (n : HotStuffConsensus) : HotStuffConsensus :=
  { n with validatorSet := n.validatorSet.setEpochSeed seed }

def registerValidatorPubkey (addr : Address) (pk : Bytes) (n : HotStuffConsensus) :
    HotStuffConsensus :=
  match n.validatorPubkeys.lookup addr with
  | some existing =>
    if existing ≠ pk then n
    else { n with validatorPubkeys := n.validatorPubkeys.insert addr pk }
  | none => { n with validatorPubkeys := n.validatorPubkeys.insert addr pk }

def pruneSeenVotesBelow (committedRound : UInt64) (n : HotStuffConsensus) : HotStuffConsensus :=
  let stale := n.seenVotes.keys.filter fun key => key.1 < committedRound
  { n with seenVotes := FiniteMap.eraseAll n.seenVotes stale }

/-! ## Proposals -/

variable (B : BlsScheme) (vote : Vote) (pubkey : Bytes)

/-- The block is stored before the safety rules are asked, and stays when they refuse. -/
def onProposal (block : SealedBlock) (parentQc : QuorumCertificate) :
    EStateM (Fault ConsensusError) HotStuffConsensus (List ConsensusEvent) := fun n =>
  let round := block.header.number
  let proposer := n.validatorSet.proposerForRound round
  if !parentQc.verify B then .error (.err (.invalidQC round)) n
  else if block.header.coinbase ≠ proposer then .error (.err (.invalidProposer round)) n
  else if !n.validatorSet.contains proposer then .error (.err (.invalidProposer round)) n
  else
    let n := { n with blockStore := n.blockStore.add block }
    let data : VoteData := ⟨block.header.hash, round, Phase.prepare.toUInt8, block.header.epoch⟩
    match n.safetyRules.vote B data parentQc with
    | .error e => .error (.err e) n
    | .ok (vote, rules) => .ok [.voteCast vote] { n with safetyRules := rules }

/-! ## Votes -/

inductive Drop
  | nonValidator
  | unregistered
  | pubkeyMismatch
  | invalidSig
  deriving DecidableEq

def screen (n : HotStuffConsensus) : Option Drop :=
  if !n.validatorSet.contains vote.voter then some .nonValidator
  else match n.validatorPubkeys.lookup vote.voter with
    | none => some .unregistered
    | some registered =>
      if registered ≠ pubkey then some .pubkeyMismatch
      else if !B.verifySingle vote.signature pubkey vote.data.digest then some .invalidSig
      else none

/-- `saturating_add(1)`. -/
def satSucc (c : UInt64) : UInt64 := if c = 0xffffffffffffffff then c else c + 1

def countDrop (n : HotStuffConsensus) : Drop → HotStuffConsensus
  | .nonValidator => { n with droppedNonValidator := satSucc n.droppedNonValidator }
  | .unregistered => { n with droppedUnregistered := satSucc n.droppedUnregistered }
  | .pubkeyMismatch => { n with droppedPubkeyMismatch := satSucc n.droppedPubkeyMismatch }
  | .invalidSig => { n with droppedInvalidSig := satSucc n.droppedInvalidSig }

/-- The accumulator of the round and phase of a vote. The first vote fixes its data. -/
def accumulatorFor (data : VoteData) (n : HotStuffConsensus) : VoteAccumulator :=
  (n.voteAccumulators.lookup (data.blockNumber, data.phase)).getD
    (.new data n.validatorSet.quorum)

def putAccumulator (data : VoteData) (acc : VoteAccumulator) (n : HotStuffConsensus) :
    HotStuffConsensus :=
  { n with voteAccumulators := n.voteAccumulators.insert (data.blockNumber, data.phase) acc }

def accumulate :
    EStateM (Fault ConsensusError) HotStuffConsensus (Option QuorumCertificate) := fun n =>
  match (n.accumulatorFor vote.data).addVote B vote pubkey with
  | .ok qc acc => .ok qc (n.putAccumulator vote.data acc)
  | .error e acc => .error e (n.putAccumulator vote.data acc)

def seenKey : UInt64 × UInt8 × Address :=
  (vote.data.blockNumber, vote.data.phase, vote.voter)

def markSeen (n : HotStuffConsensus) : HotStuffConsensus :=
  { n with seenVotes := n.seenVotes.insert (seenKey vote) ⟨vote.data.blockHash, vote, pubkey⟩ }

/-- `on_vote` up to the certificate. -/
def takeVote :
    EStateM (Fault ConsensusError) HotStuffConsensus (Option QuorumCertificate) := fun n =>
  match n.screen B vote pubkey with
  | some reason => .ok none (n.countDrop reason)
  | none =>
    match n.seenVotes.lookup (seenKey vote) with
    | some seen =>
      if seen.hash ≠ vote.data.blockHash then
        .error (.err (.remoteEquivocation seen.vote.voter seen.vote.data.blockNumber
          seen.vote.data.phase seen.vote.data.blockHash vote.data.blockHash)) n
      else accumulate B vote pubkey n
    | none => accumulate B vote pubkey (n.markSeen vote pubkey)

def castNext (phase : Phase) (qc : QuorumCertificate) (n : HotStuffConsensus) :
    List ConsensusEvent × HotStuffConsensus :=
  let data : VoteData := ⟨qc.blockHash, qc.blockNumber, phase.toUInt8, n.pacemaker.epoch⟩
  match n.safetyRules.vote B data qc with
  | .error _ => ([], n)
  | .ok (vote, rules) => ([.voteCast vote], { n with safetyRules := rules })

def commitBlock (qc : QuorumCertificate) (n : HotStuffConsensus) :
    List ConsensusEvent × HotStuffConsensus :=
  match n.blockStore.get qc.blockHash with
  | none => ([], n)
  | some block =>
    if n.committedHeight < block.header.number then
      ([.committed block qc],
        { n with
          committedHeight := block.header.number
          pacemaker := n.pacemaker.advanceRound (block.header.number + 1) qc.voteData.epoch })
    else ([], n)

def onQc (qc : QuorumCertificate) :
    EStateM (Fault ConsensusError) HotStuffConsensus (List ConsensusEvent) := fun n =>
  if qc.phase = Phase.prepare.toUInt8 then
    let n := { n with safetyRules := n.safetyRules.updateLockedQc qc, highestQc := some qc }
    let (events, n) := n.castNext B .preCommit qc
    .ok events n
  else if qc.phase = Phase.preCommit.toUInt8 then
    let (events, n) := n.castNext B .commit qc
    .ok events n
  else if qc.phase = Phase.commit.toUInt8 then
    let (events, n) := n.commitBlock qc
    .ok events n
  else
    .error (.err (.invalidMessage ("unknown QC phase " ++ toString qc.phase ++ " for round " ++
      toString qc.blockNumber))) n

def onVote : EStateM (Fault ConsensusError) HotStuffConsensus (List ConsensusEvent) := do
  match ← takeVote B vote pubkey with
  | some qc => onQc B qc
  | none => return []

def onTimeout (n : HotStuffConsensus) : List ConsensusEvent × HotStuffConsensus :=
  ([.timeout n.pacemaker.round], { n with pacemaker := n.pacemaker.onTimeout })

/-! ## The calls of the driver -/

inductive Input
  | proposal (block : SealedBlock) (parentQc : QuorumCertificate)
  | vote (vote : Vote) (pubkey : Bytes)
  | timeout
  | pruneSeenVotes (committedRound : UInt64)
  | rotateEpochSeed (seed : H256)
  | registerPubkey (addr : Address) (pk : Bytes)
  | updateValidatorSet (addrs : List Address)

def handle :
    Input → EStateM (Fault ConsensusError) HotStuffConsensus (List ConsensusEvent)
  | .proposal block parentQc => onProposal B block parentQc
  | .vote vote pubkey => onVote B vote pubkey
  | .timeout => fun n => .ok n.onTimeout.1 n.onTimeout.2
  | .pruneSeenVotes committedRound => fun n => .ok [] (n.pruneSeenVotesBelow committedRound)
  | .rotateEpochSeed seed => fun n => .ok [] (n.rotateEpochSeed seed)
  | .registerPubkey addr pk => fun n => .ok [] (n.registerValidatorPubkey addr pk)
  | .updateValidatorSet addrs => do
    updateValidatorSet addrs
    return []

end HotStuffConsensus

/-! ## The node of the driver -/

/-- What the driver builds a node from. A configuration without validators ends it. -/
structure NodeConfig where
  address : Address
  blsPriv : Bytes
  validators : List (Address × Bytes)
  genesisEpochSeed : Option H256
  nonempty : validators ≠ []

namespace NodeConfig

open HotStuffConsensus

def validatorSet (cfg : NodeConfig) : ValidatorSet :=
  .new (cfg.validators.map (·.1)) fun h => cfg.nonempty (List.map_eq_nil_iff.mp h)

def register (n : HotStuffConsensus) (entry : Address × Bytes) : HotStuffConsensus :=
  n.registerValidatorPubkey entry.1 entry.2

/-- The consensus part of `ConsensusDriver::new`. -/
def build (B : BlsScheme) (cfg : NodeConfig) : HotStuffConsensus :=
  let n := HotStuffConsensus.new cfg.address (.new B cfg.blsPriv cfg.address) cfg.validatorSet
  let n := match cfg.genesisEpochSeed with
    | none => n
    | some seed => if seed ≠ 0 then n.rotateEpochSeed seed else n
  cfg.validators.foldl register n

theorem foldl_register (entries : List (Address × Bytes)) (n : HotStuffConsensus) :
    ∃ keys, entries.foldl register n = { n with validatorPubkeys := keys } := by
  induction entries generalizing n with
  | nil => exact ⟨n.validatorPubkeys, rfl⟩
  | cons entry rest ih =>
    obtain ⟨keys, hkeys⟩ := ih (register n entry)
    refine ⟨keys, hkeys.trans ?_⟩
    unfold register registerValidatorPubkey
    split
    · split <;> rfl
    · rfl

theorem build_eq (B : BlsScheme) (cfg : NodeConfig) : ∃ seed keys, cfg.build B =
    { HotStuffConsensus.new cfg.address (.new B cfg.blsPriv cfg.address)
        (cfg.validatorSet.setEpochSeed seed) with validatorPubkeys := keys } := by
  unfold build
  split
  · obtain ⟨keys, hkeys⟩ := foldl_register cfg.validators
      (HotStuffConsensus.new cfg.address (.new B cfg.blsPriv cfg.address) cfg.validatorSet)
    exact ⟨0, keys, hkeys⟩
  rename_i seed _
  split
  · obtain ⟨keys, hkeys⟩ := foldl_register cfg.validators
      ((HotStuffConsensus.new cfg.address (.new B cfg.blsPriv cfg.address)
        cfg.validatorSet).rotateEpochSeed seed)
    exact ⟨seed, keys, hkeys⟩
  obtain ⟨keys, hkeys⟩ := foldl_register cfg.validators
    (HotStuffConsensus.new cfg.address (.new B cfg.blsPriv cfg.address) cfg.validatorSet)
  exact ⟨0, keys, hkeys⟩

end NodeConfig

end ZbxChain.HotStuff
