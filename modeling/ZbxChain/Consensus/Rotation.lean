import ZbxChain.Consensus.Aggregation
import ZbxChain.Lib.Runs

/-!
# Changes of the validators and of the round

A node whose validators are replaced between two votes, and one whose round runs ahead of its
height. The accumulators keep the votes and the quorum of the old validators, and the driver asks
who leads the round of the pacemaker where `onProposal` asks who leads the height of the block.
-/

namespace ZbxChain.HotStuff

open HotStuffConsensus FiniteMap
open VoteAccumulator (Counts)

def next (B : BlsScheme) (n : HotStuffConsensus) (input : Input) : HotStuffConsensus :=
  finalState (handle B input n)

variable {B : BlsScheme} {n n' : HotStuffConsensus} {vote : Vote} {pubkey : Bytes}
  {qc : QuorumCertificate}

/-! ## Certificates -/

/-- The signers are distinct members of the set, and at least a quorum of it. -/
structure HasQuorum (set : ValidatorSet) (qc : QuorumCertificate) : Prop where
  nodup : qc.signers.Nodup
  quorum : set.quorum ≤ qc.signers.length
  members : ∀ signer ∈ qc.signers, set.contains signer = true

theorem Tallied.hasQuorum {key : UInt64 × UInt8} {acc : VoteAccumulator}
    (h : Tallied B n key acc) (hquorum : acc.quorum ≤ acc.votes.entries.length)
    (hqc : acc.formQc B = some qc) : HasQuorum n.validatorSet qc := by
  have hsigners : qc.signers = acc.votes.keys := by
    obtain ⟨_, -, rfl⟩ := Option.map_eq_some_iff.mp hqc
    show (acc.votes.entries.map (·.2)).map (·.1.voter) = acc.votes.entries.map Sigma.fst
    rw [List.map_map]
    exact List.map_congr_left fun e he =>
      (h.votes e.1 e.2.1 e.2.2 (AList.mem_lookup_iff.mpr he)).2.1
  refine ⟨?_, ?_, fun signer hsigner => ?_⟩
  · rw [hsigners]
    exact acc.votes.keys_nodup
  · rw [hsigners, ← h.quorum, AList.keys, List.keys, List.length_map]
    exact hquorum
  rw [hsigners] at hsigner
  obtain ⟨⟨v, pk⟩, hlookup⟩ := Option.isSome_iff_exists.mp (AList.lookup_isSome.mpr hsigner)
  obtain ⟨-, rfl, hscreen⟩ := h.votes signer v pk hlookup
  exact (screen_eq_none hscreen).member

/-- The call leaves the validators alone, or the votes that are counted fit the new ones. -/
def Fits (B : BlsScheme) (n : HotStuffConsensus) (input : Input) : Prop :=
  Fixed input ∨ AccumulatorsSound B (next B n input)

/-- Whatever calls came before: if each replacement of the validators found only accumulators that
fit the new ones, a certificate has a quorum of the validators that are in force. -/
theorem certificate_has_quorum (cfg : NodeConfig) (inputs : List Input)
    (hfits : Meets (next B) (Fits B) (cfg.build B) inputs)
    (h : formedBy (takeVote B vote pubkey (inputs.foldl (next B) (cfg.build B))) = some qc) :
    HasQuorum (inputs.foldl (next B) (cfg.build B)).validatorSet qc := by
  have hsound : AccumulatorsSound B (inputs.foldl (next B) (cfg.build B)) := by
    refine foldl_of_meets (fun n input hn hfit => ?_) ?_ hfits
    · exact hfit.elim (accumulatorsSound_handle hn) id
    obtain ⟨seed, keys, hbuild⟩ := cfg.build_eq B
    rw [hbuild]
    exact nofun
  obtain ⟨hscreen, hcounts, hquorum, hqc⟩ := formed_from_counted h
  exact ((tallied_accumulatorFor hsound vote.data).record hcounts hscreen).hasQuorum hquorum hqc

def firstTwo : List Input := [fourInput 0xa1 [1] 7, fourInput 0xa2 [2] 7]

def afterTwo : HotStuffConsensus := firstTwo.foldl (next plainBls) (fourConfig.build plainBls)

def thirdVote (n : HotStuffConsensus) : Option QuorumCertificate :=
  formedBy (takeVote plainBls (fourVote 0xa3 [3] 7) [3] n)

def swapped : List Input := .updateValidatorSet [0xa1, 0xa2, 0xa3, 0xb4] :: firstTwo

def afterSwap : HotStuffConsensus := swapped.foldl (next plainBls) (fourConfig.build plainBls)

theorem three_of_four_have_quorum :
    ∃ qc ∈ thirdVote afterSwap, HasQuorum afterSwap.validatorSet qc := by
  obtain ⟨qc, hqc⟩ :=
    Option.isSome_iff_exists.mp (show (thirdVote afterSwap).isSome by decide +kernel)
  refine ⟨qc, hqc, certificate_has_quorum fourConfig swapped ?_ hqc⟩
  exact meets_cons.mpr ⟨.inr nofun,
    meets_cons.mpr ⟨.inl trivial, meets_cons.mpr ⟨.inl trivial, meets_nil⟩⟩⟩

def sevenNext : HotStuffConsensus :=
  next plainBls afterTwo (.updateValidatorSet [0xa3, 0xa4, 0xb1, 0xb2, 0xb3, 0xb4, 0xb5])

/-- Seven validators replace the four after two votes. The third vote then completes a certificate
with fewer signers than their quorum, two of them no longer validators. -/
theorem old_votes_certify :
    (thirdVote sevenNext).any (·.signers.length < sevenNext.validatorSet.quorum) = true ∧
    (thirdVote sevenNext).any (·.signers.any fun s => !sevenNext.validatorSet.contains s) =
      true := by
  decide +kernel

/-! ## Proposers -/

def committedOf (events : List ConsensusEvent) : Option SealedBlock :=
  events.findSome? fun
    | .committed block _ => some block
    | _ => none

/-- The driver: its state machine, and the number of the stored head block, on which
`build_candidate` builds. -/
structure Station where
  consensus : HotStuffConsensus
  head : UInt64

/-- What comes between two rounds. `do_commit` stores a committed block that follows the head,
where it `executes`; an import stores the next block without the state machine; a restart builds
a new state machine over the old storage. -/
inductive Turn
  | call (input : Input) (executes : Bool)
  | importNext
  | restart (cfg : NodeConfig)

/-- The head after `do_commit`. -/
def storedHead (head : UInt64) (executes : Bool) : Option SealedBlock → UInt64
  | some block =>
    if executes ∧ head.toNat = block.header.number.toNat - 1 then block.header.number else head
  | none => head

def Station.turn (B : BlsScheme) (s : Station) : Turn → Station
  | .call input executes =>
    ⟨next B s.consensus input,
      storedHead s.head executes (committedOf (eventsOf (handle B input s.consensus)))⟩
  | .importNext => { s with head := s.head + 1 }
  | .restart cfg => { s with consensus := cfg.build B }

variable {s : Station} {block : SealedBlock} {parentQc : QuorumCertificate}

def Station.candidate (s : Station) : SealedBlock :=
  { sampleBlock (s.head + 1) [] [] with
    header := { (sampleBlock (s.head + 1) [] []).header with coinbase := s.consensus.myAddress } }

def Station.InStep (s : Station) : Prop := s.consensus.pacemaker.round = s.head + 1

end ZbxChain.HotStuff
