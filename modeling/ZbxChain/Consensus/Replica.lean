import ZbxChain.Consensus.Calls

/-!
# A running node

A node with the events that it has emitted and the inputs that it was given. A panic ends
the process, which then takes no more inputs.
-/

namespace ZbxChain.HotStuff

open HotStuffConsensus

structure Replica where
  node : HotStuffConsensus
  emitted : List ConsensusEvent
  received : List Input
  aborted : Bool

namespace Replica

def start (node : HotStuffConsensus) : Replica := ⟨node, [], [], false⟩

@[simp] theorem node_start (node : HotStuffConsensus) : (start node).node = node := rfl

/-- A call that fails emits nothing; what it changed before stays. -/
def receive (B : BlsScheme) (r : Replica) (input : Input) : Replica :=
  if r.aborted then r
  else
    let r := { r with received := r.received ++ [input] }
    match handle B input r.node with
    | .ok events node => { r with node := node, emitted := r.emitted ++ events }
    | .error (.err _) node => { r with node := node }
    | .error .panic node => { r with node := node, aborted := true }

def signed (r : Replica) : List Vote := votesOf r.emitted

variable {B : BlsScheme} {r : Replica} {input : Input}

theorem receive_running (B : BlsScheme) (input : Input) (h : r.aborted = false) :
    (r.receive B input).node = finalState (handle B input r.node) ∧
      (r.receive B input).emitted = r.emitted ++ eventsOf (handle B input r.node) ∧
      (r.receive B input).received = r.received ++ [input] ∧
      ((r.receive B input).aborted = true ↔ ∃ n', handle B input r.node = .error .panic n') := by
  unfold receive
  rw [if_neg (by simp [h])]
  dsimp only
  cases handle B input r.node with
  | ok events node => exact ⟨rfl, rfl, rfl, by simp [h]⟩
  | error e node =>
    cases e with
    | err e => exact ⟨rfl, (List.append_nil _).symm, rfl, by simp [h]⟩
    | panic => exact ⟨rfl, (List.append_nil _).symm, rfl, by simp⟩

variable (B r input) in
theorem receive_cases : r.receive B input = r ∨
    (r.aborted = false ∧ (r.receive B input).node = finalState (handle B input r.node) ∧
      (r.receive B input).emitted = r.emitted ++ eventsOf (handle B input r.node) ∧
      (r.receive B input).received = r.received ++ [input]) := by
  cases haborted : r.aborted with
  | true =>
    left
    unfold receive
    rw [if_pos haborted]
  | false =>
    obtain ⟨hnode, hemitted, hreceived, -⟩ := receive_running B input haborted
    exact .inr ⟨rfl, hnode, hemitted, hreceived⟩

variable (B r input) in
theorem receive_rules : ∃ votes, (r.receive B input).signed = r.signed ++ votes ∧
      RulesStep B r.node.safetyRules (r.receive B input).node.safetyRules votes := by
  rcases receive_cases B r input with hsame | ⟨-, hnode, hemitted, -⟩
  · rw [hsame]
    exact ⟨[], (List.append_nil _).symm, .quiet (.refl _)⟩
  refine ⟨votesOf (eventsOf (handle B input r.node)), ?_, ?_⟩
  · unfold signed
    rw [hemitted]
    exact List.filterMap_append
  · rw [hnode]
    exact handle_rules B input r.node

end Replica

/-! ## A small deployment -/

def plainBls : BlsScheme where
  toPubkey := id
  sign key msg := key ++ msg.toBytes
  verifySingle signature key msg := signature = key ++ msg.toBytes
  verifyAggregate signature keys msg := signature = keys.flatMap (· ++ msg.toBytes)
  aggregateSignatures signatures := if signatures.isEmpty then none else some signatures.flatten

def sampleBlock (number : UInt64) (extraData : Bytes) (transactions : List SignedTransaction) :
    SealedBlock where
  header :=
    { coinbase := 0xa1, stateRoot := 0, number := number, gasLimit := 30000000, gasUsed := 0,
      timestamp := 1, mixHash := 0, baseFeePerGas := 1, parentHash := 0, uncleHash := 0,
      transactionsRoot := 0, receiptsRoot := 0, logsBloom := 0, difficulty := 0,
      extraData := extraData, nonce := 0, committeeSignature := [], epoch := 1,
      epochSeed := none }
  transactions := transactions

def syntheticQc (block : SealedBlock) : QuorumCertificate :=
  ⟨⟨block.header.parentHash, block.header.number - 1, 2, block.header.epoch⟩, [], [], []⟩

def soloConfig : NodeConfig := ⟨0xa1, [1], [(0xa1, [1])], none, by simp⟩

def fourConfig : NodeConfig :=
  ⟨0xa1, [1], [(0xa1, [1]), (0xa2, [2]), (0xa3, [3]), (0xa4, [4])], none, by simp⟩

/-!
## Justified proposals

A vote for a block above height 1 should rest on a certificate for its parent that a quorum has
signed.
-/

open SafetyRules (Permits)

variable {B : BlsScheme} {n : HotStuffConsensus} {block : SealedBlock} {qc : QuorumCertificate}

end ZbxChain.HotStuff
