import ZbxChain.Consensus.Replica

/-!
# Tallies

What a node has counted. While the set of validators and their keys are fixed, every
accumulator of a node holds screened votes on its data under the names of their voters, and
accumulators only grow.
-/

namespace ZbxChain.HotStuff

open HotStuffConsensus FiniteMap
open VoteAccumulator (Counts)

def Fixed : Input → Prop
  | .registerPubkey _ _ => False
  | .updateValidatorSet _ => False
  | _ => True

section

structure SameCommittee (n n' : HotStuffConsensus) : Prop where
  validators : n'.validatorSet.validators = n.validatorSet.validators
  pubkeys : n'.validatorPubkeys = n.validatorPubkeys

variable {B : BlsScheme} {n n' n'' : HotStuffConsensus}

theorem SameCommittee.refl (n : HotStuffConsensus) : SameCommittee n n := ⟨rfl, rfl⟩

section

variable (h : SameCommittee n n')

include h

theorem SameCommittee.trans (h' : SameCommittee n' n'') : SameCommittee n n'' :=
  ⟨h'.validators.trans h.validators, h'.pubkeys.trans h.pubkeys⟩

theorem SameCommittee.quorum : n'.validatorSet.quorum = n.validatorSet.quorum := by
  rw [n'.validatorSet.quorum_eq, n.validatorSet.quorum_eq, h.validators]

theorem SameCommittee.contains (addr : Address) :
    n'.validatorSet.contains addr = n.validatorSet.contains addr := by
  unfold ValidatorSet.contains
  rw [h.validators]

theorem SameCommittee.screen (vote : Vote) (pubkey : Bytes) :
    n'.screen B vote pubkey = n.screen B vote pubkey := by
  unfold HotStuffConsensus.screen
  rw [h.contains, h.pubkeys]

end

theorem SameFrame.committee (h : SameFrame n n') : SameCommittee n n' :=
  ⟨by rw [h.validatorSet], h.validatorPubkeys⟩

end

structure Screened (B : BlsScheme) (n : HotStuffConsensus) (vote : Vote) (pubkey : Bytes) : Prop where
  member : n.validatorSet.contains vote.voter = true
  registered : n.validatorPubkeys.lookup vote.voter = some pubkey
  signed : B.verifySingle vote.signature pubkey vote.data.digest = true

theorem screen_eq_none {B : BlsScheme} {n : HotStuffConsensus} {vote : Vote} {pubkey : Bytes}
    (h : n.screen B vote pubkey = none) : Screened B n vote pubkey := by
  unfold screen at h
  split at h
  · cases h
  rename_i hmember
  split at h
  · cases h
  rename_i registered hregistered
  split_ifs at h with hkey hsigned
  refine ⟨by simpa using hmember, ?_, by simpa using hsigned⟩
  rw [hregistered, not_not.mp hkey]

/-! ## Calls that count nothing -/

/-- The same accumulators and committee. Seen votes may have been pruned. -/
structure SameTally (n n' : HotStuffConsensus) : Prop where
  committee : SameCommittee n n'
  accumulators : n'.voteAccumulators = n.voteAccumulators
  seenVotes : ∀ key seen, n'.seenVotes.lookup key = some seen → n.seenVotes.lookup key = some seen

section

variable {B : BlsScheme} {n n' : HotStuffConsensus}

theorem SameTally.refl (n : HotStuffConsensus) : SameTally n n := ⟨.refl n, rfl, fun _ _ h => h⟩

theorem sameTally_castNext (phase : Phase) (qc : QuorumCertificate) (n : HotStuffConsensus) :
    SameTally n (n.castNext B phase qc).2 := by
  rcases castNext_cases B phase qc n with hcast | ⟨-, hcast⟩ <;> rw [hcast]
  · exact .refl n
  · exact ⟨⟨rfl, rfl⟩, rfl, fun _ _ h => h⟩

theorem sameTally_onQc (B : BlsScheme) (qc : QuorumCertificate) (n : HotStuffConsensus) :
    SameTally n (finalState (onQc B qc n)) := by
  rcases onQc_cases B qc n with ⟨-, hqc⟩ | ⟨-, hqc⟩ | ⟨-, hqc⟩ | ⟨e, hqc⟩ <;> rw [hqc]
  · have hcast : SameTally (n.lock qc) ((n.lock qc).castNext B .preCommit qc).2 :=
      sameTally_castNext .preCommit qc (n.lock qc)
    exact ⟨⟨hcast.committee.validators, hcast.committee.pubkeys⟩, hcast.accumulators, hcast.seenVotes⟩
  · exact sameTally_castNext .commit qc n
  · rcases commitBlock_cases qc n with hcommit | ⟨block, -, hcommit⟩ <;> rw [hcommit]
    · exact .refl n
    · exact ⟨⟨rfl, rfl⟩, rfl, fun _ _ h => h⟩
  · exact .refl n

theorem sameTally_onVote (B : BlsScheme) (vote : Vote) (pubkey : Bytes) (n : HotStuffConsensus) :
    SameTally (finalState (takeVote B vote pubkey n)) (finalState (onVote B vote pubkey n)) := by
  rcases onVote_cases B vote pubkey n with
    ⟨n', htake, hvote⟩ | ⟨e, n', htake, hvote⟩ | ⟨qc, n', htake, hvote⟩ <;> rw [htake, hvote]
  · exact .refl n'
  · exact .refl n'
  · exact sameTally_onQc B qc n'

theorem sameTally_prune (committedRound : UInt64) (n : HotStuffConsensus) :
    SameTally n (n.pruneSeenVotesBelow committedRound) := by
  refine ⟨⟨rfl, rfl⟩, rfl, fun key seen h => ?_⟩
  have herase : (eraseAll n.seenVotes
      (n.seenVotes.keys.filter fun key => key.1 < committedRound)).lookup key = some seen := h
  rw [lookup_eraseAll] at herase
  split at herase
  · cases herase
  · exact herase

theorem sameTally_handle {input : Input} (hfixed : Fixed input) :
    (∃ vote pubkey, input = .vote vote pubkey ∧
      SameTally (finalState (takeVote B vote pubkey n)) (finalState (handle B input n))) ∨
    (∀ vote pubkey, input ≠ .vote vote pubkey) ∧ SameTally n (finalState (handle B input n)) := by
  cases input with
  | vote vote pubkey => exact .inl ⟨vote, pubkey, rfl, sameTally_onVote B vote pubkey n⟩
  | registerPubkey addr pk | updateValidatorSet addrs => exact absurd hfixed id
  | pruneSeenVotes committedRound => exact .inr ⟨nofun, sameTally_prune committedRound n⟩
  | timeout | rotateEpochSeed seed => exact .inr ⟨nofun, ⟨rfl, rfl⟩, rfl, fun _ _ h => h⟩
  | proposal block parentQc =>
    refine .inr ⟨nofun, ?_⟩
    show SameTally n (finalState (onProposal B block parentQc n))
    rcases onProposal_cases B block parentQc n with ⟨-, e, h⟩ | ⟨-, ⟨-, e, h⟩ | ⟨-, h⟩⟩ <;> rw [h]
    · exact .refl n
    · exact ⟨⟨rfl, rfl⟩, rfl, fun _ _ h => h⟩
    · exact ⟨⟨rfl, rfl⟩, rfl, fun _ _ h => h⟩

end

/-! ## Accumulators -/

/-- An accumulator of the given round and phase, with the quorum of the validators, whose
votes are screened votes on its data under the names of their voters. -/
structure Tallied (B : BlsScheme) (n : HotStuffConsensus) (key : UInt64 × UInt8)
    (acc : VoteAccumulator) : Prop where
  key : (acc.data.blockNumber, acc.data.phase) = key
  quorum : acc.quorum = n.validatorSet.quorum
  votes : ∀ addr vote pubkey, acc.votes.lookup addr = some (vote, pubkey) →
    vote.data = acc.data ∧ vote.voter = addr ∧ n.screen B vote pubkey = none

def AccumulatorsSound (B : BlsScheme) (n : HotStuffConsensus) : Prop :=
  ∀ key acc, n.voteAccumulators.lookup key = some acc → Tallied B n key acc

def Grown (n n' : HotStuffConsensus) : Prop :=
  ∀ key acc, n.voteAccumulators.lookup key = some acc →
    ∃ acc', n'.voteAccumulators.lookup key = some acc' ∧ acc'.data = acc.data ∧
      acc.votes.entries.length ≤ acc'.votes.entries.length

variable {B : BlsScheme} {n n' : HotStuffConsensus} {vote : Vote} {pubkey : Bytes}
  {key : UInt64 × UInt8} {acc : VoteAccumulator} {input : Input}

theorem Tallied.congr (h : Tallied B n key acc) (hsame : SameCommittee n n') :
    Tallied B n' key acc := by
  refine ⟨h.key, h.quorum.trans hsame.quorum.symm, fun addr vote pubkey hlookup => ?_⟩
  rw [hsame.screen]
  exact h.votes addr vote pubkey hlookup

theorem tallied_accumulatorFor (h : AccumulatorsSound B n) (data : VoteData) :
    Tallied B n (data.blockNumber, data.phase) (n.accumulatorFor data) := by
  unfold accumulatorFor
  cases hlookup : n.voteAccumulators.lookup (data.blockNumber, data.phase) with
  | none => exact ⟨rfl, rfl, nofun⟩
  | some acc => exact h _ _ hlookup

theorem Tallied.record (h : Tallied B n key acc) (hcounts : Counts B vote pubkey acc)
    (hscreen : n.screen B vote pubkey = none) : Tallied B n key (acc.record vote pubkey) := by
  refine ⟨h.key, h.quorum, fun addr v pk hlookup => ?_⟩
  rcases lookup_insert_cases hlookup with ⟨haddr, heq⟩ | hold
  · cases heq
    exact ⟨hcounts.data, haddr.symm, hscreen⟩
  · exact h.votes addr v pk hold

theorem length_record (hcounts : Counts B vote pubkey acc) :
    (acc.record vote pubkey).votes.entries.length = acc.votes.entries.length + 1 := by
  have hnot : vote.voter ∉ acc.votes := AList.lookup_eq_none.mp hcounts.first
  have hentries : (acc.votes.insert vote.voter (vote, pubkey)).entries =
      ⟨vote.voter, (vote, pubkey)⟩ :: acc.votes.entries := AList.entries_insert_of_notMem hnot
  exact congrArg List.length hentries

section

variable (h : AccumulatorsSound B n)

include h

theorem tallied_put {data : VoteData}
    (hacc : Tallied B n (data.blockNumber, data.phase) acc) {key : UInt64 × UInt8}
    {acc' : VoteAccumulator}
    (hlookup : (n.putAccumulator data acc).voteAccumulators.lookup key = some acc') :
    Tallied B n key acc' := by
  rcases lookup_insert_cases hlookup with ⟨rfl, rfl⟩ | hold
  · exact hacc
  · exact h key acc' hold

theorem accumulatorsSound_takeVote (vote : Vote) (pubkey : Bytes) :
    AccumulatorsSound B (finalState (takeVote B vote pubkey n)) := by
  have heffect := voteEffect_takeVote B vote pubkey n
  have haccs := heffect.accumulators
  intro key acc hlookup
  refine Tallied.congr ?_ (SameFrame.committee heffect.frame)
  generalize (finalState (takeVote B vote pubkey n)).voteAccumulators = accs at haccs hlookup
  cases haccs with
  | same => exact h key acc hlookup
  | opened _ => exact tallied_put h (tallied_accumulatorFor h vote.data) hlookup
  | counted hscreen hcounts =>
    exact tallied_put h ((tallied_accumulatorFor h vote.data).record hcounts hscreen) hlookup

theorem AccumulatorsSound.congr (hsame : SameTally n n') : AccumulatorsSound B n' := by
  intro key acc hlookup
  rw [hsame.accumulators] at hlookup
  exact (h key acc hlookup).congr hsame.committee

theorem accumulatorsSound_handle (hfixed : Fixed input) :
    AccumulatorsSound B (finalState (handle B input n)) := by
  rcases sameTally_handle hfixed with ⟨vote, pubkey, -, hsame⟩ | ⟨-, hsame⟩
  · exact (accumulatorsSound_takeVote h vote pubkey).congr hsame
  · exact h.congr hsame

end

theorem committee_handle (hfixed : Fixed input) :
    SameCommittee n (finalState (handle B input n)) := by
  rcases sameTally_handle hfixed with ⟨vote, pubkey, -, hsame⟩ | ⟨-, hsame⟩
  · exact (SameFrame.committee (voteEffect_takeVote B vote pubkey n).frame).trans hsame.committee
  · exact hsame.committee

/-! ## Growth -/

theorem grown_put {data : VoteData} (hdata : acc.data = (n.accumulatorFor data).data)
    (hlength : (n.accumulatorFor data).votes.entries.length ≤ acc.votes.entries.length) :
    Grown n (n.putAccumulator data acc) := by
  intro key old hold
  by_cases hkey : key = (data.blockNumber, data.phase)
  · have hfor : n.accumulatorFor data = old := by
      unfold accumulatorFor
      rw [← hkey, hold]
      rfl
    rw [hfor] at hdata hlength
    refine ⟨acc, ?_, hdata, hlength⟩
    rw [hkey]
    exact AList.lookup_insert _
  · exact ⟨old, (AList.lookup_insert_ne hkey).trans hold, rfl, le_rfl⟩

theorem grown_takeVote (vote : Vote) (pubkey : Bytes) (n : HotStuffConsensus) :
    Grown n (finalState (takeVote B vote pubkey n)) := by
  have haccs := (voteEffect_takeVote B vote pubkey n).accumulators
  intro key acc hlookup
  generalize (finalState (takeVote B vote pubkey n)).voteAccumulators = accs at haccs
  cases haccs with
  | same => exact ⟨acc, hlookup, rfl, le_rfl⟩
  | opened _ => exact grown_put rfl (le_rfl) key acc hlookup
  | counted _ hcounts =>
    have hdata : (n.counted vote pubkey).data = (n.accumulatorFor vote.data).data := rfl
    have hlength : (n.counted vote pubkey).votes.entries.length = _ := length_record hcounts
    exact grown_put hdata (by omega) key acc hlookup

theorem grown_handle (hfixed : Fixed input) : Grown n (finalState (handle B input n)) := by
  unfold Grown
  rcases sameTally_handle hfixed with ⟨vote, pubkey, -, hsame⟩ | ⟨-, hsame⟩
  · rw [hsame.accumulators]
    exact grown_takeVote vote pubkey n
  · rw [hsame.accumulators]
    exact fun key acc hlookup => ⟨acc, hlookup, rfl, le_rfl⟩

end ZbxChain.HotStuff
