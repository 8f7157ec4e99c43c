import ZbxChain.Consensus.Tally

/-!
# What votes and commits rest on

With the committee fixed, a node signs at most one vote for each round and phase. It votes to
Prepare only blocks that were proposed to it, and in the later phases, and to commit, only on
a quorum of votes of the phase before, which it has counted.
-/

namespace ZbxChain.HotStuff

open HotStuffConsensus List FiniteMap
open SafetyRules (Permits)

def Proposed (received : List Input) (block : SealedBlock) : Prop :=
  ∃ parentQc, .proposal block parentQc ∈ received

def Certified (n : HotStuffConsensus) (number : UInt64) (phase : UInt8) (hash : H256) : Prop :=
  ∃ acc, n.voteAccumulators.lookup (number, phase) = some acc ∧ acc.data.blockHash = hash ∧
    n.validatorSet.quorum ≤ acc.votes.entries.length

inductive Supported (n : HotStuffConsensus) (received : List Input) : VoteData → Prop
  | prepare (block : SealedBlock) (h : Proposed received block) :
    Supported n received (prepareData block)
  | preCommit (data : VoteData) (hphase : data.phase = 1)
    (h : Certified n data.blockNumber 0 data.blockHash) : Supported n received data
  | commit (data : VoteData) (hphase : data.phase = 2)
    (h : Certified n data.blockNumber 1 data.blockHash) : Supported n received data

section

variable {B : BlsScheme} {n n' : HotStuffConsensus} {received : List Input} {block : SealedBlock}
  {number : UInt64} {phase : UInt8} {hash : H256} {data : VoteData} {input : Input}

theorem Proposed.append (h : Proposed received block) (input : Input) :
    Proposed (received ++ [input]) block := by
  obtain ⟨parentQc, hmem⟩ := h
  exact ⟨parentQc, mem_append_left _ hmem⟩

theorem Certified.grow (h : Certified n number phase hash) (hgrown : Grown n n')
    (hcommittee : SameCommittee n n') : Certified n' number phase hash := by
  obtain ⟨acc, hlookup, hhash, hquorum⟩ := h
  obtain ⟨acc', hlookup', hdata, hle⟩ := hgrown _ acc hlookup
  refine ⟨acc', hlookup', by rw [hdata, hhash], ?_⟩
  rw [hcommittee.quorum]
  exact hquorum.trans hle

theorem Certified.same (h : Certified n number phase hash) (hsame : SameTally n n') :
    Certified n' number phase hash := by
  obtain ⟨acc, hlookup, hhash, hquorum⟩ := h
  refine ⟨acc, by rw [hsame.accumulators, hlookup], hhash, ?_⟩
  rw [hsame.committee.quorum]
  exact hquorum

theorem Supported.grow (h : Supported n received data) (hgrown : Grown n n')
    (hcommittee : SameCommittee n n') (input : Input) :
    Supported n' (received ++ [input]) data := by
  cases h with
  | prepare block hproposed => exact .prepare block (hproposed.append input)
  | preCommit _ hphase hcertified => exact .preCommit data hphase (hcertified.grow hgrown hcommittee)
  | commit _ hphase hcertified => exact .commit data hphase (hcertified.grow hgrown hcommittee)

end

/-! ## The calls -/

section

variable {B : BlsScheme} {n n' : HotStuffConsensus} {received : List Input} {vote : Vote}
  {pubkey : Bytes} {qc : QuorumCertificate} {block : SealedBlock}

theorem certified_takeVote (h : AccumulatorsSound B n)
    (htake : takeVote B vote pubkey n = .ok (some qc) n') :
    Certified n' qc.blockNumber qc.phase qc.blockHash := by
  have heffect := voteEffect_takeVote B vote pubkey n
  rw [htake] at heffect
  obtain ⟨hqc, hvote, hlookup, hquorum⟩ := heffect.formed qc rfl
  have hdata : vote.data = qc.voteData := hvote.trans hqc.symm
  refine ⟨n.counted vote pubkey, ?_, ?_, ?_⟩
  · rw [hdata] at hlookup
    exact hlookup
  · show (n.accumulatorFor vote.data).data.blockHash = qc.voteData.blockHash
    rw [hqc]
  have hsame : SameCommittee n n' := SameFrame.committee heffect.frame
  rw [hsame.quorum, ← (tallied_accumulatorFor h vote.data).quorum]
  exact hquorum

theorem castNext_mem {phase : Phase} {event : ConsensusEvent}
    (h : event ∈ (n.castNext B phase qc).1) :
    event = .voteCast (n.safetyRules.sign B (n.nextData phase qc)) := by
  rcases castNext_cases B phase qc n with hcast | ⟨-, hcast⟩ <;> rw [hcast] at h
  · cases h
  · exact mem_singleton.mp h

theorem onQc_mem {event : ConsensusEvent} (h : event ∈ eventsOf (onQc B qc n)) :
    (∃ v, event = .voteCast v ∧ v.data.blockHash = qc.blockHash ∧
      v.data.blockNumber = qc.blockNumber ∧
      (qc.phase = 0 ∧ v.data.phase = 1 ∨ qc.phase = 1 ∧ v.data.phase = 2)) ∨
    ∃ block, event = .committed block qc ∧ qc.phase = 2 ∧
      n.blockStore.get qc.blockHash = some block := by
  rcases onQc_cases B qc n with ⟨hphase, hqc⟩ | ⟨hphase, hqc⟩ | ⟨hphase, hqc⟩ | ⟨e, hqc⟩
  · rw [hqc] at h
    exact .inl ⟨_, castNext_mem h, rfl, rfl, .inl ⟨hphase, rfl⟩⟩
  · rw [hqc] at h
    exact .inl ⟨_, castNext_mem h, rfl, rfl, .inr ⟨hphase, rfl⟩⟩
  · rw [hqc] at h
    rcases commitBlock_cases qc n with hcommit | ⟨block, hget, hcommit⟩ <;> rw [hcommit] at h
    · cases h
    · exact .inr ⟨block, mem_singleton.mp h, hphase, hget⟩
  · rw [hqc] at h
    cases h

theorem onVote_mem {event : ConsensusEvent} (h : event ∈ eventsOf (onVote B vote pubkey n)) :
    ∃ qc m, takeVote B vote pubkey n = .ok (some qc) m ∧ event ∈ eventsOf (onQc B qc m) ∧
      finalState (onVote B vote pubkey n) = finalState (onQc B qc m) := by
  rcases onVote_cases B vote pubkey n with
    ⟨m, -, hvote⟩ | ⟨e, m, -, hvote⟩ | ⟨qc, m, htake, hvote⟩ <;> rw [hvote] at h
  · cases h
  · cases h
  · exact ⟨qc, m, htake, h, by rw [hvote]⟩

theorem emitted_handle (received : List Input) (hsound : AccumulatorsSound B n) {input : Input}
    (hfixed : Fixed input) {event : ConsensusEvent} (h : event ∈ eventsOf (handle B input n)) :
    match event with
    | .voteCast vote => Supported (finalState (handle B input n)) (received ++ [input]) vote.data
    | .committed block qc => n.blockStore.get qc.blockHash = some block ∧
        Certified (finalState (handle B input n)) qc.blockNumber 2 qc.blockHash
    | .timeout _ => True := by
  cases input with
  | proposal block parentQc =>
    have hmem : event ∈ eventsOf (onProposal B block parentQc n) := h
    rcases onProposal_cases B block parentQc n with ⟨-, e, hcall⟩ | ⟨-, ⟨-, e, hcall⟩ | ⟨-, hcall⟩⟩
    · rw [hcall] at hmem
      cases hmem
    · rw [hcall] at hmem
      cases hmem
    rw [hcall] at hmem
    cases mem_singleton.mp hmem
    exact .prepare block ⟨parentQc, mem_append_right _ (mem_singleton_self _)⟩
  | vote v pubkey =>
    obtain ⟨qc, m, htake, hevent, hfinal⟩ := onVote_mem h
    have hcertified := (certified_takeVote hsound htake).same (sameTally_onQc B qc m)
    have hframe := (voteEffect_takeVote B v pubkey n).frame.blockStore
    rw [htake] at hframe
    rw [← hfinal] at hcertified
    rcases onQc_mem hevent with ⟨w, rfl, hhash, hnumber, hphases⟩ | ⟨block, rfl, hphase, hget⟩
    · rw [← hhash, ← hnumber] at hcertified
      rcases hphases with ⟨hqcphase, hphase⟩ | ⟨hqcphase, hphase⟩ <;> rw [hqcphase] at hcertified
      · exact .preCommit _ hphase hcertified
      · exact .commit _ hphase hcertified
    · rw [hphase] at hcertified
      exact ⟨hframe ▸ hget, hcertified⟩
  | timeout =>
    cases mem_singleton.mp h
    trivial
  | pruneSeenVotes committedRound => cases h
  | rotateEpochSeed seed => cases h
  | registerPubkey addr pk | updateValidatorSet addrs => exact absurd hfixed id

variable (B qc) in
theorem onQc_blockStore (n : HotStuffConsensus) :
    (finalState (onQc B qc n)).blockStore = n.blockStore := by
  have hcast : ∀ (phase : Phase) (m : HotStuffConsensus),
      (m.castNext B phase qc).2.blockStore = m.blockStore := by
    intro phase m
    rcases castNext_cases B phase qc m with hcast | ⟨-, hcast⟩ <;> rw [hcast]
    rfl
  rcases onQc_cases B qc n with ⟨-, hqc⟩ | ⟨-, hqc⟩ | ⟨-, hqc⟩ | ⟨e, hqc⟩ <;> rw [hqc]
  · exact hcast .preCommit (n.lock qc)
  · exact hcast .commit n
  · rcases commitBlock_cases qc n with hcommit | ⟨block, -, hcommit⟩ <;> rw [hcommit] <;> rfl
  · rfl

theorem handle_blockStore {input : Input} (hfixed : Fixed input) :
    (finalState (handle B input n)).blockStore = n.blockStore ∨
    ∃ block parentQc, input = .proposal block parentQc ∧
      (finalState (handle B input n)).blockStore = n.blockStore.add block := by
  cases input with
  | proposal block parentQc =>
    have hcall := onProposal_cases B block parentQc n
    show (finalState (onProposal B block parentQc n)).blockStore = _ ∨ _
    rcases hcall with ⟨-, e, hcall⟩ | ⟨-, ⟨-, e, hcall⟩ | ⟨-, hcall⟩⟩
    · rw [hcall]
      exact .inl rfl
    all_goals
      refine .inr ⟨block, parentQc, rfl, ?_⟩
      show (finalState (onProposal B block parentQc n)).blockStore = _
      rw [hcall]
      rfl
  | vote vote pubkey =>
    left
    show (finalState (onVote B vote pubkey n)).blockStore = _
    have hframe := (voteEffect_takeVote B vote pubkey n).frame.blockStore
    rcases onVote_cases B vote pubkey n with
      ⟨m, htake, hvote⟩ | ⟨e, m, htake, hvote⟩ | ⟨qc, m, htake, hvote⟩ <;> rw [htake] at hframe
    · rw [hvote]
      exact hframe
    · rw [hvote]
      exact hframe
    · rw [hvote, onQc_blockStore]
      exact hframe
  | timeout | pruneSeenVotes committedRound | rotateEpochSeed seed => exact .inl rfl
  | registerPubkey addr pk | updateValidatorSet addrs => exact absurd hfixed id

theorem counted_handle {input : Input} (hfixed : Fixed input) {key : UInt64 × UInt8}
    {acc : VoteAccumulator} {addr : Address}
    (hlookup : (finalState (handle B input n)).voteAccumulators.lookup key = some acc)
    (hvote : acc.votes.lookup addr = some (vote, pubkey)) :
    (∃ old, n.voteAccumulators.lookup key = some old ∧ old.votes.lookup addr = some (vote, pubkey)) ∨
    (input = .vote vote pubkey ∧ addr = vote.voter ∧ n.screen B vote pubkey = none) := by
  rcases sameTally_handle hfixed with ⟨v, pk, rfl, hsame⟩ | ⟨-, hsame⟩
  · rw [hsame.accumulators] at hlookup
    have haccs := (voteEffect_takeVote B v pk n).accumulators
    generalize (finalState (takeVote B v pk n)).voteAccumulators = accs at haccs hlookup
    have hput : ∀ acc', (n.putAccumulator v.data acc').voteAccumulators.lookup key = some acc →
        key = (v.data.blockNumber, v.data.phase) ∧ acc = acc' ∨
          n.voteAccumulators.lookup key = some acc := by
      intro acc' hinsert
      exact lookup_insert_cases hinsert
    -- an accumulator that a vote finds is the stored one, unless it is new and empty
    have hfound : ∀ e, key = (v.data.blockNumber, v.data.phase) →
        (n.accumulatorFor v.data).votes.lookup addr = some e →
        ∃ old, n.voteAccumulators.lookup key = some old ∧ old.votes.lookup addr = some e := by
      intro e hkey he
      unfold accumulatorFor at he
      rw [← hkey] at he
      cases hold : n.voteAccumulators.lookup key with
      | none =>
        rw [hold] at he
        cases he
      | some old =>
        rw [hold] at he
        exact ⟨old, rfl, he⟩
    cases haccs with
    | same => exact .inl ⟨acc, hlookup, hvote⟩
    | opened _ =>
      rcases hput _ hlookup with ⟨hkey, rfl⟩ | hold
      · exact .inl (hfound _ hkey hvote)
      · exact .inl ⟨acc, hold, hvote⟩
    | counted hscreen _ =>
      rcases hput _ hlookup with ⟨hkey, rfl⟩ | hold
      · rcases lookup_insert_cases hvote with ⟨haddr, heq⟩ | hrecord
        · cases heq
          exact .inr ⟨rfl, haddr, hscreen⟩
        · exact .inl (hfound _ hkey hrecord)
      · exact .inl ⟨acc, hold, hvote⟩
  · rw [hsame.accumulators] at hlookup
    exact .inl ⟨acc, hlookup, hvote⟩

theorem get_add {store : BlockStore} {hash : H256} {block found : SealedBlock}
    (h : (store.add block).get hash = some found) :
    store.get hash = some found ∨ found = block ∧ block.header.hash = hash := by
  unfold BlockStore.add at h
  dsimp only at h
  split at h
  · exact .inl h
  rcases lookup_insert_cases h with ⟨hhash, rfl⟩ | hinsert
  · exact .inr ⟨rfl, hhash.symm⟩
  left
  split at hinsert
  · unfold BlockStore.evict at hinsert
    split at hinsert
    · exact hinsert
    · exact lookup_of_erase hinsert
  · exact hinsert

end

/-! ## Runs of a node -/

namespace Replica

structure Sound (B : BlsScheme) (r : Replica) : Prop where
  accumulators : AccumulatorsSound B r.node
  stored : ∀ hash block, r.node.blockStore.get hash = some block →
    block.header.hash = hash ∧ Proposed r.received block
  counted : ∀ key acc addr vote pubkey, r.node.voteAccumulators.lookup key = some acc →
    acc.votes.lookup addr = some (vote, pubkey) → .vote vote pubkey ∈ r.received
  voted : ∀ v ∈ r.signed, (v.data.blockNumber, v.data.phase) ∈ r.node.safetyRules.state.votedPhases ∧
    Supported r.node r.received v.data
  unique : ∀ v ∈ r.signed, ∀ w ∈ r.signed,
    (v.data.blockNumber, v.data.phase) = (w.data.blockNumber, w.data.phase) → v.data = w.data
  committed : ∀ block qc, .committed block qc ∈ r.emitted →
    Proposed r.received block ∧ ∃ number, Certified r.node number 2 block.header.hash

variable {B : BlsScheme} {r : Replica} {input : Input}

theorem sound_build (B : BlsScheme) (cfg : NodeConfig) : (start (cfg.build B)).Sound B := by
  obtain ⟨seed, keys, hbuild⟩ := cfg.build_eq B
  have hstore : (start (cfg.build B)).node.blockStore = .new 1024 := by
    rw [node_start, hbuild]
    rfl
  have haccs : (start (cfg.build B)).node.voteAccumulators = ∅ := by
    rw [node_start, hbuild]
    rfl
  refine ⟨fun key acc hlookup => ?_, fun hash block hget => ?_,
    fun key acc addr vote pubkey hlookup => ?_, nofun, nofun, fun block qc hmem => ?_⟩
  · rw [haccs] at hlookup
    cases hlookup
  · rw [hstore, BlockStore.get_new] at hget
    cases hget
  · rw [haccs] at hlookup
    cases hlookup
  · cases hmem

theorem Sound.receive (h : r.Sound B) (hfixed : Fixed input) : (r.receive B input).Sound B := by
  rcases receive_cases B r input with hsame | ⟨-, hnode, hemitted, hreceived⟩
  · rw [hsame]
    exact h
  have hgrown : Grown r.node (r.receive B input).node := hnode ▸ grown_handle hfixed
  have hcommittee : SameCommittee r.node (r.receive B input).node := hnode ▸ committee_handle hfixed
  have hsigned : (r.receive B input).signed = r.signed ++ votesOf (eventsOf (handle B input r.node)) := by
    unfold signed
    rw [hemitted]
    exact filterMap_append
  have hrules := handle_rules B input r.node
  rw [← hnode] at hrules
  obtain ⟨hphases, hvotes⟩ := hrules.record
  refine ⟨?_, ?_, ?_, ?_, ?_, ?_⟩
  · rw [hnode]
    exact accumulatorsSound_handle h.accumulators hfixed
  · intro hash block hget
    rw [hnode] at hget
    rw [hreceived]
    rcases handle_blockStore (B := B) (n := r.node) hfixed with hstore | ⟨added, parentQc, hinput, hstore⟩
    · rw [hstore] at hget
      obtain ⟨hhash, hproposed⟩ := h.stored hash block hget
      exact ⟨hhash, hproposed.append input⟩
    rw [hstore] at hget
    rcases get_add hget with hold | ⟨rfl, hhash⟩
    · obtain ⟨hhash, hproposed⟩ := h.stored hash block hold
      exact ⟨hhash, hproposed.append input⟩
    refine ⟨hhash, parentQc, ?_⟩
    rw [hinput]
    exact mem_append_right _ (mem_singleton_self _)
  · intro key acc addr vote pubkey hlookup hvote
    rw [hnode] at hlookup
    rw [hreceived]
    rcases counted_handle hfixed hlookup hvote with ⟨old, hold, holdvote⟩ | ⟨hinput, -⟩
    · exact mem_append_left _ (h.counted key old addr vote pubkey hold holdvote)
    · rw [hinput]
      exact mem_append_right _ (mem_singleton_self _)
  · rw [hsigned, hreceived]
    intro v hv
    rcases mem_append.mp hv with hold | hnow
    · obtain ⟨hphase, hsupported⟩ := h.voted v hold
      exact ⟨hphases hphase, hsupported.grow hgrown hcommittee input⟩
    refine ⟨?_, hnode ▸ emitted_handle r.received h.accumulators hfixed (mem_votesOf.mp hnow)⟩
    rcases hvotes with hnone | ⟨w, hw, -, hphase⟩
    · rw [hnone] at hnow
      cases hnow
    rw [hw] at hnow
    cases mem_singleton.mp hnow
    exact hphase
  · rw [hsigned]
    rcases hvotes with hnone | ⟨new, hnew, hfresh, -⟩
    · rw [hnone, append_nil]
      exact h.unique
    -- the new vote is in a round and phase of its own
    rw [hnew]
    have hother : ∀ v ∈ r.signed,
        (v.data.blockNumber, v.data.phase) ≠ (new.data.blockNumber, new.data.phase) :=
      fun v hv heq => hfresh (heq ▸ (h.voted v hv).1)
    intro v hv w hw heq
    rcases mem_append.mp hv with hv | hv <;> rcases mem_append.mp hw with hw | hw
    · exact h.unique v hv w hw heq
    · cases mem_singleton.mp hw
      exact absurd heq (hother v hv)
    · cases mem_singleton.mp hv
      exact absurd heq.symm (hother w hw)
    cases mem_singleton.mp hv
    cases mem_singleton.mp hw
    rfl
  · intro block qc hmem
    rw [hemitted] at hmem
    rw [hreceived]
    rcases mem_append.mp hmem with hold | hnow
    · obtain ⟨hproposed, number, hcertified⟩ := h.committed block qc hold
      exact ⟨hproposed.append input, number, hcertified.grow hgrown hcommittee⟩
    obtain ⟨hget, hcertified⟩ := emitted_handle [] h.accumulators hfixed hnow
    obtain ⟨hhash, hproposed⟩ := h.stored _ block hget
    rw [hnode, hhash]
    exact ⟨hproposed.append input, _, hcertified⟩

end Replica

end ZbxChain.HotStuff
