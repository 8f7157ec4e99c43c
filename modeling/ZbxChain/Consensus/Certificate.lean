import Mathlib.Data.List.AList
import Mathlib.Data.Finset.Insert
import ZbxChain.Lib.Quorum
import ZbxChain.Trie.Node

/-!
# Votes and equivocation

The votes of `zbx-consensus/src/vote.rs`, and the evidence that one validator signed two
blocks in one round and phase. The BLS check is a parameter.
-/

namespace ZbxChain

structure VoteData where
  blockHash : H256
  blockNumber : UInt64
  phase : UInt8
  epoch : UInt64
  deriving DecidableEq

def VoteData.signingBytes (d : VoteData) : Bytes :=
  d.blockHash.toBytes ++ beBytes 8 d.blockNumber.toNat ++ [d.phase] ++ beBytes 8 d.epoch.toNat

structure Vote where
  data : VoteData
  voter : Address
  signature : Bytes
  deriving DecidableEq

structure EquivocationEvidence where
  validator : Address
  round : UInt64
  phase : UInt8
  voteA : Vote
  voteB : Vote
  pubkey : Bytes
  deriving DecidableEq

/-- `verify_single`: signature, public key and message. -/
abbrev VerifySingle := Bytes → Bytes → H256 → Bool

/-- Both votes are of the named validator, round and phase, for different blocks, and
both signatures are right. -/
def EquivocationEvidence.verify (verifySingle : VerifySingle) (ev : EquivocationEvidence) : Bool :=
  if ev.voteA.voter ≠ ev.voteB.voter ∨ ev.voteA.voter ≠ ev.validator ∨
      ev.voteA.data.blockNumber ≠ ev.voteB.data.blockNumber ∨
      ev.voteA.data.phase ≠ ev.voteB.data.phase ∨
      ev.voteA.data.blockHash = ev.voteB.data.blockHash ∨
      ev.voteA.data.blockNumber ≠ ev.round ∨ ev.voteA.data.phase ≠ ev.phase then false
  else
    verifySingle ev.voteA.signature ev.pubkey (keccak256 ev.voteA.data.signingBytes) &&
      verifySingle ev.voteB.signature ev.pubkey (keccak256 ev.voteB.data.signingBytes)

/-!
## Quorum certificates

Quorum certificates and the accumulator that forms them out of votes
(`zbx-consensus/src/vote.rs`), with the errors of the crate that the modelled functions
raise. The signature scheme is a parameter.
-/

/-! ## Errors -/

/-- The variants of `ConsensusError` that the modelled functions raise. -/
inductive ConsensusError where
  | safetyViolation (msg : String)
  | staleRound (got locked : UInt64)
  | invalidProposer (round : UInt64)
  | duplicateVote (msg : String)
  | remoteEquivocation (validator : Address) (round : UInt64) (phase : UInt8) (hashA hashB : H256)
  | invalidQC (round : UInt64)
  | invalidMessage (msg : String)
  deriving DecidableEq

/-! ## Certificates -/

/-- The operations of `zbx_crypto::bls`: `to_pubkey`, `sign`, `verify_single`,
`verify_aggregate` and `aggregate_signatures`, which may fail. -/
structure BlsScheme where
  toPubkey : Bytes → Bytes
  sign : Bytes → H256 → Bytes
  verifySingle : VerifySingle
  verifyAggregate : Bytes → List Bytes → H256 → Bool
  aggregateSignatures : List Bytes → Option Bytes

def VoteData.digest (d : VoteData) : H256 := keccak256 d.signingBytes

theorem VoteData.signingBytes_injective : Function.Injective VoteData.signingBytes := by
  rintro ⟨hash, number, phase, epoch⟩ ⟨hash', number', phase', epoch'⟩ heq
  have hbytes : hash.toBytes ++ (beBytes 8 number.toNat ++ ([phase] ++ beBytes 8 epoch.toNat)) =
      hash'.toBytes ++ (beBytes 8 number'.toNat ++ ([phase'] ++ beBytes 8 epoch'.toNat)) := by
    simpa [signingBytes] using heq
  obtain ⟨hhash, hrest⟩ := List.append_inj hbytes (by simp)
  obtain ⟨hnumber, hrest⟩ := List.append_inj hrest (by simp)
  obtain ⟨hphase, hepoch⟩ := List.append_inj hrest (by simp)
  rw [H256.toBytes_injective hhash, beBytes_toNat_inj hnumber, List.singleton_inj.mp hphase,
    beBytes_toNat_inj hepoch]

structure QuorumCertificate where
  voteData : VoteData
  aggSignature : Bytes
  signers : List Address
  signerPubkeys : List Bytes
  deriving DecidableEq

namespace QuorumCertificate

def blockHash (qc : QuorumCertificate) : H256 := qc.voteData.blockHash

def blockNumber (qc : QuorumCertificate) : UInt64 := qc.voteData.blockNumber

def phase (qc : QuorumCertificate) : UInt8 := qc.voteData.phase

def verify (B : BlsScheme) (qc : QuorumCertificate) : Bool :=
  if qc.signerPubkeys.isEmpty then true
  else B.verifyAggregate qc.aggSignature qc.signerPubkeys qc.voteData.digest

end QuorumCertificate

/-! ## Accumulators -/

structure VoteAccumulator where
  data : VoteData
  votes : AList fun _ : Address => Vote × Bytes
  quorum : Nat

namespace VoteAccumulator

def new (data : VoteData) (quorum : Nat) : VoteAccumulator := ⟨data, ∅, quorum⟩

/-- `none` is the panic of a failed aggregation. The source does not fix the order of the
signers. -/
def formQc (B : BlsScheme) (acc : VoteAccumulator) : Option QuorumCertificate :=
  let entries := acc.votes.entries.map (·.2)
  (B.aggregateSignatures (entries.map (·.1.signature))).map fun aggSignature =>
    { voteData := acc.data
      aggSignature := aggSignature
      signers := entries.map (·.1.voter)
      signerPubkeys := entries.map (·.2) }

def record (vote : Vote) (pubkey : Bytes) (acc : VoteAccumulator) : VoteAccumulator :=
  { acc with votes := acc.votes.insert vote.voter (vote, pubkey) }

def addVote (B : BlsScheme) (vote : Vote) (pubkey : Bytes) :
    EStateM (Fault ConsensusError) VoteAccumulator (Option QuorumCertificate) := fun acc =>
  if vote.data ≠ acc.data then .ok none acc
  else if (acc.votes.lookup vote.voter).isSome then
    .error (.err (.duplicateVote vote.voter.debug)) acc
  else if !B.verifySingle vote.signature pubkey vote.data.digest then .ok none acc
  else
    let acc := acc.record vote pubkey
    if acc.quorum ≤ acc.votes.entries.length then
      match acc.formQc B with
      | none => .error .panic acc
      | some qc => .ok (some qc) acc
    else .ok none acc

variable {B : BlsScheme} {vote : Vote} {pubkey : Bytes} {acc : VoteAccumulator}

theorem formQc_eq_some {qc : QuorumCertificate} (h : acc.formQc B = some qc) :
    qc.voteData = acc.data := by
  obtain ⟨_, -, rfl⟩ := Option.map_eq_some_iff.mp h
  rfl

/-- A vote that is counted: it is on the data of the accumulator, the first of its voter,
and its signature is right. -/
structure Counts (B : BlsScheme) (vote : Vote) (pubkey : Bytes) (acc : VoteAccumulator) : Prop where
  data : vote.data = acc.data
  first : acc.votes.lookup vote.voter = none
  signed : B.verifySingle vote.signature pubkey vote.data.digest = true

variable (B vote pubkey acc) in
theorem addVote_cases : (¬ Counts B vote pubkey acc ∧ (addVote B vote pubkey acc = .ok none acc ∨
      ∃ e, addVote B vote pubkey acc = .error (.err e) acc)) ∨ (Counts B vote pubkey acc ∧
      ((acc.record vote pubkey).votes.entries.length < acc.quorum ∧
        addVote B vote pubkey acc = .ok none (acc.record vote pubkey) ∨
      acc.quorum ≤ (acc.record vote pubkey).votes.entries.length ∧
        ((acc.record vote pubkey).formQc B = none ∧
          addVote B vote pubkey acc = .error .panic (acc.record vote pubkey) ∨
        ∃ qc, (acc.record vote pubkey).formQc B = some qc ∧
          addVote B vote pubkey acc = .ok (some qc) (acc.record vote pubkey)))) := by
  unfold addVote
  by_cases hdata : vote.data = acc.data
  case neg => exact .inl ⟨fun h => hdata h.data, .inl (if_pos hdata)⟩
  rw [if_neg (not_not_intro hdata)]
  cases hfirst : acc.votes.lookup vote.voter with
  | some _ =>
    refine .inl ⟨fun h => ?_, .inr ⟨_, if_pos rfl⟩⟩
    rw [h.first] at hfirst
    cases hfirst
  | none =>
    rw [if_neg (by simp)]
    cases hsigned : B.verifySingle vote.signature pubkey vote.data.digest with
    | false =>
      refine .inl ⟨fun h => ?_, .inl (if_pos rfl)⟩
      rw [h.signed] at hsigned
      cases hsigned
    | true =>
      refine .inr ⟨⟨hdata, hfirst, hsigned⟩, ?_⟩
      rw [if_neg (by simp)]
      by_cases hquorum : acc.quorum ≤ (acc.record vote pubkey).votes.entries.length
      case neg => exact .inl ⟨Nat.lt_of_not_le hquorum, if_neg hquorum⟩
      refine .inr ⟨hquorum, ?_⟩
      rw [if_pos (show (acc.record vote pubkey).quorum ≤ _ from hquorum)]
      cases hqc : (acc.record vote pubkey).formQc B with
      | none => exact .inl ⟨rfl, rfl⟩
      | some qc => exact .inr ⟨qc, rfl, rfl⟩

end VoteAccumulator

/-!
## Safety rules

`SafetyRules` of `zbx-consensus/src/safety_rules.rs`: the record of what a validator has voted for,
and the checks that a vote has to pass before it is signed.
-/

structure SafetyState where
  highestVoteRound : UInt64
  lockedRound : UInt64
  lockedQc : Option QuorumCertificate
  epoch : UInt64
  votedPhases : Finset (UInt64 × UInt8)

namespace SafetyState

protected def default : SafetyState := ⟨0, 0, none, 0, ∅⟩

def note (data : VoteData) (state : SafetyState) : SafetyState :=
  { state with
    highestVoteRound := data.blockNumber
    votedPhases := insert (data.blockNumber, data.phase) state.votedPhases }

end SafetyState

structure SafetyRules where
  state : SafetyState
  privKey : Bytes
  pubKey : Bytes
  address : Address

namespace SafetyRules

def new (B : BlsScheme) (privKey : Bytes) (address : Address) : SafetyRules :=
  ⟨.default, privKey, B.toPubkey privKey, address⟩

def sign (B : BlsScheme) (data : VoteData) (rules : SafetyRules) : Vote :=
  ⟨data, rules.address, B.sign rules.privKey data.digest⟩

def vote (B : BlsScheme) (data : VoteData) (parentQc : QuorumCertificate) (rules : SafetyRules) :
    Except ConsensusError (Vote × SafetyRules) :=
  let state := rules.state
  if data.blockNumber < state.highestVoteRound then
    .error (.staleRound data.blockNumber state.highestVoteRound)
  else if (data.blockNumber, data.phase) ∈ state.votedPhases then
    .error (.duplicateVote ("already voted for block " ++ toString data.blockNumber ++
      " phase " ++ toString data.phase))
  else if parentQc.blockNumber < state.lockedRound then
    .error (.safetyViolation ("parent QC round " ++ toString parentQc.blockNumber ++
      " < locked round " ++ toString state.lockedRound))
  else if data.epoch ≠ state.epoch ∧ state.epoch ≠ 0 then
    .error (.safetyViolation ("epoch mismatch: expected " ++ toString state.epoch ++
      ", got " ++ toString data.epoch))
  else .ok (rules.sign B data, { rules with state := state.note data })

def updateLockedQc (qc : QuorumCertificate) (rules : SafetyRules) : SafetyRules :=
  if rules.state.lockedRound < qc.blockNumber then
    { rules with state := { rules.state with
        lockedRound := qc.blockNumber
        lockedQc := some qc } }
  else rules

def advanceEpoch (newEpoch : UInt64) (rules : SafetyRules) : SafetyRules :=
  if rules.state.epoch < newEpoch then
    { rules with state := { rules.state with
        epoch := newEpoch
        votedPhases := ∅ } }
  else rules

/-! ## When a vote is signed -/

structure Permits (state : SafetyState) (data : VoteData) (parentQc : QuorumCertificate) : Prop where
  round : state.highestVoteRound ≤ data.blockNumber
  first : (data.blockNumber, data.phase) ∉ state.votedPhases
  lock : state.lockedRound ≤ parentQc.blockNumber
  epoch : data.epoch = state.epoch ∨ state.epoch = 0

variable {B : BlsScheme} {data : VoteData} {parentQc : QuorumCertificate} {rules rules' : SafetyRules}
  {signed : Vote}

theorem vote_of_permits (h : Permits rules.state data parentQc) : rules.vote B data parentQc =
      .ok (rules.sign B data, { rules with state := rules.state.note data }) := by
  have hepoch : ¬ (data.epoch ≠ rules.state.epoch ∧ rules.state.epoch ≠ 0) := by
    rintro ⟨hne, hzero⟩
    rcases h.epoch with heq | heq
    · exact hne heq
    · exact hzero heq
  unfold vote
  rw [if_neg (UInt64.not_lt.mpr h.round), if_neg h.first, if_neg (UInt64.not_lt.mpr h.lock),
    if_neg hepoch]

theorem permits_of_vote (h : rules.vote B data parentQc = .ok (signed, rules')) :
    Permits rules.state data parentQc := by
  simp only [vote, ite_error_eq_ok] at h
  obtain ⟨hround, hfirst, hlock, hepoch, -⟩ := h
  refine ⟨UInt64.not_lt.mp hround, hfirst, UInt64.not_lt.mp hlock, ?_⟩
  by_cases heq : data.epoch = rules.state.epoch
  · exact .inl heq
  · exact .inr (not_not.mp fun hzero => hepoch ⟨heq, hzero⟩)

variable (B data parentQc rules) in
theorem vote_cases :
    (¬ Permits rules.state data parentQc ∧ ∃ e, rules.vote B data parentQc = .error e) ∨
    (Permits rules.state data parentQc ∧ rules.vote B data parentQc =
      .ok (rules.sign B data, { rules with state := rules.state.note data })) := by
  by_cases hpermits : Permits rules.state data parentQc
  · exact .inr ⟨hpermits, vote_of_permits hpermits⟩
  refine .inl ⟨hpermits, ?_⟩
  cases hvote : rules.vote B data parentQc with
  | error e => exact ⟨e, rfl⟩
  | ok result => exact absurd (permits_of_vote hvote) hpermits

end SafetyRules

end ZbxChain
