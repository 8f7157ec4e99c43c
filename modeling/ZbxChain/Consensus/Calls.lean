import ZbxChain.Consensus.HotStuff

/-!
# What the calls of a node do

One lemma for each function of the state machine that says all that it can do, and what
follows for every call: `handle_rules` for the safety rules and the votes that are signed,
`evolves_handle` for the validators, the keys and the accumulators.
-/

namespace ZbxChain.HotStuff

namespace HotStuffConsensus

open SafetyRules (Permits)

variable {B : BlsScheme} {vote : Vote} {pubkey : Bytes} {qc : QuorumCertificate}
  {n n' : HotStuffConsensus}

/-- The events of a call; a call that fails has none. -/
def eventsOf : EStateM.Result (Fault ConsensusError) HotStuffConsensus (List ConsensusEvent) →
    List ConsensusEvent
  | .ok events _ => events
  | .error _ _ => []

def noteVote (data : VoteData) (n : HotStuffConsensus) : HotStuffConsensus :=
  { n with safetyRules := { n.safetyRules with state := n.safetyRules.state.note data } }

/-! ## Proposals -/

def prepareData (block : SealedBlock) : VoteData :=
  ⟨block.header.hash, block.header.number, Phase.prepare.toUInt8, block.header.epoch⟩

def store (block : SealedBlock) (n : HotStuffConsensus) : HotStuffConsensus :=
  { n with blockStore := n.blockStore.add block }

structure Admits (B : BlsScheme) (n : HotStuffConsensus) (block : SealedBlock)
    (parentQc : QuorumCertificate) : Prop where
  verified : parentQc.verify B = true
  proposer : block.header.coinbase = n.validatorSet.proposerForRound block.header.number
  member : n.validatorSet.contains (n.validatorSet.proposerForRound block.header.number) = true

theorem onProposal_cases (B : BlsScheme) (block : SealedBlock) (parentQc : QuorumCertificate)
    (n : HotStuffConsensus) :
    (¬ Admits B n block parentQc ∧ ∃ e, onProposal B block parentQc n = .error (.err e) n) ∨
    (Admits B n block parentQc ∧ ((¬ Permits n.safetyRules.state (prepareData block) parentQc ∧
        ∃ e, onProposal B block parentQc n = .error (.err e) (n.store block)) ∨
      (Permits n.safetyRules.state (prepareData block) parentQc ∧ onProposal B block parentQc n =
          .ok [.voteCast (n.safetyRules.sign B (prepareData block))]
            ((n.store block).noteVote (prepareData block))))) := by
  unfold onProposal
  dsimp only
  cases hverified : parentQc.verify B with
  | false =>
    refine .inl ⟨fun h => ?_, _, if_pos rfl⟩
    rw [h.verified] at hverified
    cases hverified
  | true =>
    rw [if_neg (by simp)]
    by_cases hproposer : block.header.coinbase = n.validatorSet.proposerForRound block.header.number
    case neg => exact .inl ⟨fun h => hproposer h.proposer, _, if_pos hproposer⟩
    rw [if_neg (not_not_intro hproposer)]
    cases hmember : n.validatorSet.contains (n.validatorSet.proposerForRound block.header.number) with
    | false =>
      refine .inl ⟨fun h => ?_, _, if_pos rfl⟩
      rw [h.member] at hmember
      cases hmember
    | true =>
      rw [if_neg (by simp)]
      refine .inr ⟨⟨hverified, hproposer, hmember⟩, ?_⟩
      rcases SafetyRules.vote_cases B (prepareData block) parentQc n.safetyRules with
        ⟨hrefused, e, hvote⟩ | ⟨hpermits, hvote⟩
      · refine .inl ⟨hrefused, e, ?_⟩
        unfold prepareData at hvote
        rw [hvote]
        rfl
      refine .inr ⟨hpermits, ?_⟩
      unfold prepareData at hvote
      rw [hvote]
      rfl

/-! ## Votes -/

def Conflicts (n : HotStuffConsensus) (vote : Vote) : Prop :=
  ∃ seen, n.seenVotes.lookup (seenKey vote) = some seen ∧ seen.hash ≠ vote.data.blockHash

def noteSeen (vote : Vote) (pubkey : Bytes) (n : HotStuffConsensus) : HotStuffConsensus :=
  match n.seenVotes.lookup (seenKey vote) with
  | some _ => n
  | none => n.markSeen vote pubkey

variable (B vote pubkey n) in
theorem takeVote_cases : (∃ reason, n.screen B vote pubkey = some reason ∧
      takeVote B vote pubkey n = .ok none (n.countDrop reason)) ∨
    (n.screen B vote pubkey = none ∧ n.Conflicts vote ∧
      ∃ e, takeVote B vote pubkey n = .error (.err e) n) ∨
    (n.screen B vote pubkey = none ∧ ¬ n.Conflicts vote ∧
      takeVote B vote pubkey n = accumulate B vote pubkey (n.noteSeen vote pubkey)) := by
  unfold takeVote
  cases hscreen : n.screen B vote pubkey with
  | some reason => exact .inl ⟨reason, rfl, rfl⟩
  | none =>
    refine .inr ?_
    unfold Conflicts noteSeen
    cases hseen : n.seenVotes.lookup (seenKey vote) with
    | none => exact .inr ⟨rfl, (by rintro ⟨_, h, _⟩; cases h), rfl⟩
    | some seen =>
      dsimp only
      by_cases hhash : seen.hash = vote.data.blockHash
      · rw [if_neg (not_not_intro hhash)]
        refine .inr ⟨rfl, ?_, rfl⟩
        rintro ⟨_, h, hne⟩
        cases h
        exact hne hhash
      · rw [if_pos hhash]
        exact .inl ⟨rfl, ⟨seen, rfl, hhash⟩, _, rfl⟩

open VoteAccumulator (Counts)

def counted (vote : Vote) (pubkey : Bytes) (n : HotStuffConsensus) : VoteAccumulator :=
  (n.accumulatorFor vote.data).record vote pubkey

variable (B vote pubkey n) in
theorem accumulate_cases : (¬ Counts B vote pubkey (n.accumulatorFor vote.data) ∧
      (accumulate B vote pubkey n = .ok none (n.putAccumulator vote.data (n.accumulatorFor vote.data)) ∨
      ∃ e, accumulate B vote pubkey n =
        .error (.err e) (n.putAccumulator vote.data (n.accumulatorFor vote.data)))) ∨
    (Counts B vote pubkey (n.accumulatorFor vote.data) ∧
      ((n.counted vote pubkey).votes.entries.length < (n.accumulatorFor vote.data).quorum ∧
        accumulate B vote pubkey n = .ok none (n.putAccumulator vote.data (n.counted vote pubkey)) ∨
      (n.accumulatorFor vote.data).quorum ≤ (n.counted vote pubkey).votes.entries.length ∧
        ((n.counted vote pubkey).formQc B = none ∧ accumulate B vote pubkey n =
          .error .panic (n.putAccumulator vote.data (n.counted vote pubkey)) ∨
        ∃ qc, (n.counted vote pubkey).formQc B = some qc ∧ accumulate B vote pubkey n =
          .ok (some qc) (n.putAccumulator vote.data (n.counted vote pubkey))))) := by
  unfold accumulate counted
  rcases VoteAccumulator.addVote_cases B vote pubkey (n.accumulatorFor vote.data) with
    ⟨hnot, hadd | ⟨e, hadd⟩⟩ | ⟨hcounts, ⟨hlt, hadd⟩ | ⟨hle, ⟨hqc, hadd⟩ | ⟨qc, hqc, hadd⟩⟩⟩
  · exact .inl ⟨hnot, .inl (by rw [hadd])⟩
  · exact .inl ⟨hnot, .inr ⟨e, by rw [hadd]⟩⟩
  · exact .inr ⟨hcounts, .inl ⟨hlt, by rw [hadd]⟩⟩
  · exact .inr ⟨hcounts, .inr ⟨hle, .inl ⟨hqc, by rw [hadd]⟩⟩⟩
  · exact .inr ⟨hcounts, .inr ⟨hle, .inr ⟨qc, hqc, by rw [hadd]⟩⟩⟩

/-! ## Certificates -/

def nextData (phase : Phase) (qc : QuorumCertificate) (n : HotStuffConsensus) : VoteData :=
  ⟨qc.blockHash, qc.blockNumber, phase.toUInt8, n.pacemaker.epoch⟩

def lock (qc : QuorumCertificate) (n : HotStuffConsensus) : HotStuffConsensus :=
  { n with safetyRules := n.safetyRules.updateLockedQc qc, highestQc := some qc }

def decided (block : SealedBlock) (qc : QuorumCertificate) (n : HotStuffConsensus) :
    HotStuffConsensus :=
  { n with
    committedHeight := block.header.number
    pacemaker := n.pacemaker.advanceRound (block.header.number + 1) qc.voteData.epoch }

theorem castNext_cases (B : BlsScheme) (phase : Phase) (qc : QuorumCertificate)
    (n : HotStuffConsensus) : n.castNext B phase qc = ([], n) ∨
    (Permits n.safetyRules.state (n.nextData phase qc) qc ∧ n.castNext B phase qc =
      ([.voteCast (n.safetyRules.sign B (n.nextData phase qc))], n.noteVote (n.nextData phase qc))) := by
  unfold castNext
  dsimp only
  rcases SafetyRules.vote_cases B (n.nextData phase qc) qc n.safetyRules with
    ⟨-, e, hvote⟩ | ⟨hpermits, hvote⟩
  · left
    unfold nextData at hvote
    rw [hvote]
  right
  refine ⟨hpermits, ?_⟩
  unfold nextData at hvote
  rw [hvote]
  rfl

theorem commitBlock_cases (qc : QuorumCertificate) (n : HotStuffConsensus) :
    n.commitBlock qc = ([], n) ∨ ∃ block, n.blockStore.get qc.blockHash = some block ∧
      n.commitBlock qc = ([.committed block qc], n.decided block qc) := by
  unfold commitBlock
  cases hget : n.blockStore.get qc.blockHash with
  | none => exact .inl rfl
  | some block =>
    dsimp only
    by_cases hheight : n.committedHeight < block.header.number
    · rw [if_pos hheight]
      exact .inr ⟨block, rfl, rfl⟩
    · rw [if_neg hheight]
      exact .inl rfl

variable (B qc n) in
theorem onQc_cases : (qc.phase = 0 ∧ onQc B qc n =
      .ok ((n.lock qc).castNext B .preCommit qc).1 ((n.lock qc).castNext B .preCommit qc).2) ∨
    (qc.phase = 1 ∧ onQc B qc n = .ok (n.castNext B .commit qc).1 (n.castNext B .commit qc).2) ∨
    (qc.phase = 2 ∧ onQc B qc n = .ok (n.commitBlock qc).1 (n.commitBlock qc).2) ∨
    ∃ e, onQc B qc n = .error (.err e) n := by
  unfold onQc
  by_cases hprepare : qc.phase = Phase.prepare.toUInt8
  · exact .inl ⟨hprepare, if_pos hprepare⟩
  rw [if_neg hprepare]
  by_cases hpreCommit : qc.phase = Phase.preCommit.toUInt8
  · exact .inr (.inl ⟨hpreCommit, if_pos hpreCommit⟩)
  rw [if_neg hpreCommit]
  by_cases hcommit : qc.phase = Phase.commit.toUInt8
  · exact .inr (.inr (.inl ⟨hcommit, if_pos hcommit⟩))
  rw [if_neg hcommit]
  exact .inr (.inr (.inr ⟨_, rfl⟩))

variable (B vote pubkey n) in
theorem onVote_cases :
    (∃ n', takeVote B vote pubkey n = .ok none n' ∧ onVote B vote pubkey n = .ok [] n') ∨
    (∃ e n', takeVote B vote pubkey n = .error e n' ∧ onVote B vote pubkey n = .error e n') ∨
    ∃ qc n', takeVote B vote pubkey n = .ok (some qc) n' ∧ onVote B vote pubkey n =
      onQc B qc n' := by
  cases htake : takeVote B vote pubkey n with
  | error e n' => exact .inr (.inl ⟨e, n', rfl, estate_bind_error htake _⟩)
  | ok result n' =>
    cases result with
    | none => exact .inl ⟨n', rfl, estate_bind_ok htake _⟩
    | some qc => exact .inr (.inr ⟨qc, n', rfl, estate_bind_ok htake _⟩)

/-! ## What a vote leaves alone -/

/-- Counting votes changes neither the safety rules nor the blocks, validators, keys and round. -/
structure SameFrame (n n' : HotStuffConsensus) : Prop where
  safetyRules : n'.safetyRules = n.safetyRules
  blockStore : n'.blockStore = n.blockStore
  validatorSet : n'.validatorSet = n.validatorSet
  validatorPubkeys : n'.validatorPubkeys = n.validatorPubkeys
  pacemaker : n'.pacemaker = n.pacemaker

variable (vote pubkey n) in
theorem sameFrame_noteSeen : SameFrame n (n.noteSeen vote pubkey) := by
  unfold noteSeen
  split <;> exact ⟨rfl, rfl, rfl, rfl, rfl⟩

/-- All that happens to the accumulators when a vote arrives: nothing, or the accumulator of
the vote is written, with the vote if it counts. -/
inductive AccumulatorStep (B : BlsScheme) (vote : Vote) (pubkey : Bytes) (n : HotStuffConsensus) :
    (AList fun _ : UInt64 × UInt8 => VoteAccumulator) → Prop
  | same : AccumulatorStep B vote pubkey n n.voteAccumulators
  | opened (hscreen : n.screen B vote pubkey = none) :
    AccumulatorStep B vote pubkey n
      (n.putAccumulator vote.data (n.accumulatorFor vote.data)).voteAccumulators
  | counted (hscreen : n.screen B vote pubkey = none)
    (hcounts : Counts B vote pubkey (n.accumulatorFor vote.data)) :
    AccumulatorStep B vote pubkey n
      (n.putAccumulator vote.data (n.counted vote pubkey)).voteAccumulators

/-- The effect of a vote: the frame, the accumulators, and the accumulator behind a
certificate. -/
structure VoteEffect (B : BlsScheme) (vote : Vote) (pubkey : Bytes) (n n' : HotStuffConsensus)
    (formed : Option QuorumCertificate) : Prop where
  frame : SameFrame n n'
  accumulators : AccumulatorStep B vote pubkey n n'.voteAccumulators
  formed : ∀ qc, formed = some qc → qc.voteData = (n.accumulatorFor vote.data).data ∧
    vote.data = (n.accumulatorFor vote.data).data ∧
    n'.voteAccumulators.lookup (vote.data.blockNumber, vote.data.phase) =
      some (n.counted vote pubkey) ∧
    (n.accumulatorFor vote.data).quorum ≤ (n.counted vote pubkey).votes.entries.length

def formedBy : EStateM.Result (Fault ConsensusError) HotStuffConsensus (Option QuorumCertificate) →
    Option QuorumCertificate
  | .ok formed _ => formed
  | .error _ _ => none

theorem noteSeen_putAccumulator (vote : Vote) (pubkey : Bytes) (acc : VoteAccumulator)
    (n : HotStuffConsensus) :
    ((n.noteSeen vote pubkey).putAccumulator vote.data acc).voteAccumulators =
      (n.putAccumulator vote.data acc).voteAccumulators := by
  unfold noteSeen
  split <;> rfl

variable (vote pubkey n) in
theorem noteSeen_accumulatorFor :
    (n.noteSeen vote pubkey).accumulatorFor vote.data = n.accumulatorFor vote.data := by
  unfold noteSeen
  split <;> rfl

variable (vote pubkey n) in
theorem noteSeen_counted :
    (n.noteSeen vote pubkey).counted vote pubkey = n.counted vote pubkey := by
  unfold counted
  rw [noteSeen_accumulatorFor]

variable (B vote pubkey n) in
theorem voteEffect_takeVote : VoteEffect B vote pubkey n (finalState (takeVote B vote pubkey n))
      (formedBy (takeVote B vote pubkey n)) := by
  rcases takeVote_cases B vote pubkey n with
    ⟨reason, -, htake⟩ | ⟨-, -, e, htake⟩ | ⟨hscreen, -, htake⟩
  · rw [htake]
    refine ⟨(by cases reason <;> exact ⟨rfl, rfl, rfl, rfl, rfl⟩), ?_, nofun⟩
    have haccs : (n.countDrop reason).voteAccumulators = n.voteAccumulators := by
      cases reason <;> rfl
    show AccumulatorStep B vote pubkey n (n.countDrop reason).voteAccumulators
    rw [haccs]
    exact .same
  · rw [htake]
    exact ⟨⟨rfl, rfl, rfl, rfl, rfl⟩, .same, nofun⟩
  -- the vote reaches its accumulator
  have hframe := sameFrame_noteSeen vote pubkey n
  have hput : ∀ acc, SameFrame n ((n.noteSeen vote pubkey).putAccumulator vote.data acc) :=
    fun _ => ⟨hframe.safetyRules, hframe.blockStore, hframe.validatorSet, hframe.validatorPubkeys,
      hframe.pacemaker⟩
  have hopened : AccumulatorStep B vote pubkey n
      ((n.noteSeen vote pubkey).putAccumulator vote.data (n.accumulatorFor vote.data)).voteAccumulators := by
    rw [noteSeen_putAccumulator]
    exact .opened hscreen
  have hcases := accumulate_cases B vote pubkey (n.noteSeen vote pubkey)
  rw [noteSeen_accumulatorFor, noteSeen_counted] at hcases
  rw [htake]
  have hcountedStep (hcounts : Counts B vote pubkey (n.accumulatorFor vote.data)) :
      AccumulatorStep B vote pubkey n
        ((n.noteSeen vote pubkey).putAccumulator vote.data (n.counted vote pubkey)).voteAccumulators := by
    rw [noteSeen_putAccumulator]
    exact .counted hscreen hcounts
  rcases hcases with ⟨-, hadd | ⟨e, hadd⟩⟩ |
    ⟨hcounts, ⟨-, hadd⟩ | ⟨hquorum, ⟨-, hadd⟩ | ⟨qc, hqc, hadd⟩⟩⟩ <;> rw [hadd]
  · exact ⟨hput _, hopened, nofun⟩
  · exact ⟨hput _, hopened, nofun⟩
  · exact ⟨hput _, hcountedStep hcounts, nofun⟩
  · exact ⟨hput _, hcountedStep hcounts, nofun⟩
  refine ⟨hput _, hcountedStep hcounts, fun qc' hformed => ?_⟩
  cases hformed
  have hdata : qc.voteData = (n.counted vote pubkey).data := VoteAccumulator.formQc_eq_some hqc
  exact ⟨hdata, hcounts.data, AList.lookup_insert _, hquorum⟩

theorem formed_from_counted {qc : QuorumCertificate}
    (h : formedBy (takeVote B vote pubkey n) = some qc) :
    n.screen B vote pubkey = none ∧ Counts B vote pubkey (n.accumulatorFor vote.data) ∧
      (n.accumulatorFor vote.data).quorum ≤ (n.counted vote pubkey).votes.entries.length ∧
      (n.counted vote pubkey).formQc B = some qc := by
  rcases takeVote_cases B vote pubkey n with
    ⟨reason, -, htake⟩ | ⟨-, -, e, htake⟩ | ⟨hscreen, -, htake⟩ <;> rw [htake] at h
  · cases h
  · cases h
  have hcases := accumulate_cases B vote pubkey (n.noteSeen vote pubkey)
  rw [noteSeen_accumulatorFor, noteSeen_counted] at hcases
  rcases hcases with ⟨-, hadd | ⟨e, hadd⟩⟩ |
    ⟨hcounts, ⟨-, hadd⟩ | ⟨hquorum, ⟨-, hadd⟩ | ⟨formed, hqc, hadd⟩⟩⟩ <;>
    rw [hadd] at h <;> cases h
  exact ⟨hscreen, hcounts, hquorum, hqc⟩

/-! ## The safety rules -/

def votesOf (events : List ConsensusEvent) : List Vote :=
  events.filterMap fun
    | .voteCast vote => some vote
    | _ => none

theorem mem_votesOf {events : List ConsensusEvent} :
    vote ∈ votesOf events ↔ .voteCast vote ∈ events := by
  unfold votesOf
  rw [List.mem_filterMap]
  constructor
  · rintro ⟨event, hmem, heq⟩
    cases event with
    | voteCast v =>
      cases heq
      exact hmem
    | committed _ _ => cases heq
    | timeout _ => cases heq
  · intro hmem
    exact ⟨_, hmem, rfl⟩

structure SameRecord (rules rules' : SafetyRules) : Prop where
  votedPhases : rules'.state.votedPhases = rules.state.votedPhases
  highestVoteRound : rules'.state.highestVoteRound = rules.state.highestVoteRound
  epoch : rules'.state.epoch = rules.state.epoch
  address : rules'.address = rules.address
  privKey : rules'.privKey = rules.privKey
  pubKey : rules'.pubKey = rules.pubKey

theorem SameRecord.refl (rules : SafetyRules) : SameRecord rules rules :=
  ⟨rfl, rfl, rfl, rfl, rfl, rfl⟩

theorem sameRecord_updateLockedQc (qc : QuorumCertificate) (rules : SafetyRules) :
    SameRecord rules (rules.updateLockedQc qc) := by
  unfold SafetyRules.updateLockedQc
  split <;> exact ⟨rfl, rfl, rfl, rfl, rfl, rfl⟩

/-- All that a call does to the safety rules, with the votes that it casts. -/
inductive RulesStep (B : BlsScheme) (rules : SafetyRules) : SafetyRules → List Vote → Prop
  | quiet {rules' : SafetyRules} (h : SameRecord rules rules') : RulesStep B rules rules' []
  | signed {locked : SafetyRules} {data : VoteData} {parentQc : QuorumCertificate}
    (h : SameRecord rules locked) (hpermits : Permits locked.state data parentQc) :
    RulesStep B rules { locked with state := locked.state.note data } [locked.sign B data]

theorem RulesStep.record {rules rules' : SafetyRules} {votes : List Vote}
    (h : RulesStep B rules rules' votes) :
    rules.state.votedPhases ⊆ rules'.state.votedPhases ∧ (votes = [] ∨
      ∃ v, votes = [v] ∧ (v.data.blockNumber, v.data.phase) ∉ rules.state.votedPhases ∧
        (v.data.blockNumber, v.data.phase) ∈ rules'.state.votedPhases) := by
  cases h with
  | quiet hsame => exact ⟨by rw [hsame.votedPhases], .inl rfl⟩
  | @signed locked data parentQc hsame hpermits =>
    rw [← hsame.votedPhases]
    exact ⟨Finset.subset_insert _ _,
      .inr ⟨_, rfl, hpermits.first, Finset.mem_insert_self _ _⟩⟩

theorem rulesStep_castNext (h : SameRecord n'.safetyRules n.safetyRules) (phase : Phase) :
    RulesStep B n'.safetyRules (n.castNext B phase qc).2.safetyRules
      (votesOf (n.castNext B phase qc).1) := by
  rcases castNext_cases B phase qc n with hcast | ⟨hpermits, hcast⟩ <;> rw [hcast]
  · exact .quiet h
  · exact .signed h hpermits

variable (B qc n) in
theorem onQc_rules : RulesStep B n.safetyRules (finalState (onQc B qc n)).safetyRules
      (votesOf (eventsOf (onQc B qc n))) := by
  rcases onQc_cases B qc n with ⟨-, hqc⟩ | ⟨-, hqc⟩ | ⟨-, hqc⟩ | ⟨e, hqc⟩ <;> rw [hqc]
  · have hlock : SameRecord n.safetyRules (n.lock qc).safetyRules :=
      sameRecord_updateLockedQc qc n.safetyRules
    exact rulesStep_castNext hlock .preCommit
  · exact rulesStep_castNext (.refl _) .commit
  · rcases commitBlock_cases qc n with hcommit | ⟨block, -, hcommit⟩ <;> rw [hcommit]
    all_goals exact .quiet (.refl _)
  · exact .quiet (.refl _)

variable (B vote pubkey n) in
theorem onVote_rules : RulesStep B n.safetyRules (finalState (onVote B vote pubkey n)).safetyRules
      (votesOf (eventsOf (onVote B vote pubkey n))) := by
  have heffect := voteEffect_takeVote B vote pubkey n
  have hrules := heffect.frame.safetyRules
  rcases onVote_cases B vote pubkey n with
    ⟨n', htake, hvote⟩ | ⟨e, n', htake, hvote⟩ | ⟨qc, n', htake, hvote⟩ <;> rw [htake] at hrules
  · rw [hvote]
    exact .quiet (hrules ▸ .refl _)
  · rw [hvote]
    exact .quiet (hrules ▸ .refl _)
  · rw [hvote, ← hrules]
    exact onQc_rules B qc n'

theorem onProposal_rules (B : BlsScheme) (block : SealedBlock) (parentQc : QuorumCertificate)
    (n : HotStuffConsensus) :
    RulesStep B n.safetyRules (finalState (onProposal B block parentQc n)).safetyRules
      (votesOf (eventsOf (onProposal B block parentQc n))) := by
  rcases onProposal_cases B block parentQc n with
    ⟨-, e, h⟩ | ⟨-, ⟨-, e, h⟩ | ⟨hpermits, h⟩⟩ <;> rw [h]
  · exact .quiet (.refl _)
  · exact .quiet (.refl _)
  · exact .signed (.refl _) hpermits

theorem handle_rules (B : BlsScheme) (input : Input) (n : HotStuffConsensus) :
    RulesStep B n.safetyRules (finalState (handle B input n)).safetyRules
      (votesOf (eventsOf (handle B input n))) := by
  cases input with
  | proposal block parentQc => exact onProposal_rules B block parentQc n
  | vote vote pubkey => exact onVote_rules B vote pubkey n
  | timeout | pruneSeenVotes committedRound | rotateEpochSeed seed => exact .quiet (.refl _)
  | registerPubkey addr pk =>
    have hrules : (n.registerValidatorPubkey addr pk).safetyRules = n.safetyRules := by
      unfold registerValidatorPubkey
      split
      · split <;> rfl
      · rfl
    show RulesStep B n.safetyRules (n.registerValidatorPubkey addr pk).safetyRules []
    rw [hrules]
    exact .quiet (.refl _)
  | updateValidatorSet addrs =>
    by_cases haddrs : addrs ≠ []
    · have hupdate : updateValidatorSet addrs n = .ok () _ := dif_pos haddrs
      have hhandle : handle B (.updateValidatorSet addrs) n = .ok [] _ := estate_bind_ok hupdate _
      rw [hhandle]
      exact .quiet (.refl _)
    have hupdate : updateValidatorSet addrs n = .error .panic n := dif_neg haddrs
    have hhandle : handle B (.updateValidatorSet addrs) n = .error .panic n :=
      estate_bind_error hupdate _
    rw [hhandle]
    exact .quiet (.refl _)

end HotStuffConsensus

end ZbxChain.HotStuff
