import ZbxChain.Consensus.Replica
import ZbxChain.Lib.Runs

/-!
# Double signing

A validator should never sign two blocks in one round and phase. The record that prevents it is
kept in memory and is cleared when the epoch advances, so it works exactly as long as a node is
neither restarted nor moved to another epoch after its first vote.
-/

namespace ZbxChain.HotStuff

open HotStuffConsensus List SafetyRules
open SafetyRules (Permits)

/-! ## The life of a node -/

/-- What happens to a node: a call, an advance of the epoch of its safety rules, or a crash
after which the driver builds it again. -/
inductive LifeStep
  | input (input : Input)
  | advanceEpoch (newEpoch : UInt64)
  | restart

def live (B : BlsScheme) (cfg : NodeConfig) (r : Replica) : LifeStep → Replica
  | .input input => r.receive B input
  | .advanceEpoch newEpoch =>
    if r.aborted then r
    else { r with node :=
      { r.node with safetyRules := r.node.safetyRules.advanceEpoch newEpoch } }
  | .restart => { r with node := cfg.build B, aborted := false }

/-! ## Conflicts -/

structure ConflictsWith (d e : VoteData) : Prop where
  blockNumber : d.blockNumber = e.blockNumber
  phase : d.phase = e.phase
  blockHash : d.blockHash ≠ e.blockHash

def NoConflict (votes : List Vote) : Prop :=
  ∀ v ∈ votes, ∀ w ∈ votes, ¬ ConflictsWith v.data w.data

def Exposed (rules : SafetyRules) (votes : List Vote) : Prop :=
  ∃ data parentQc, Permits rules.state data parentQc ∧ ∃ v ∈ votes, ConflictsWith data v.data

/-- The condition on a step: the record of votes is not dropped once there is a vote. -/
def Careful (r : Replica) : LifeStep → Prop
  | .input _ => True
  | .advanceEpoch newEpoch =>
    r.aborted = true ∨ newEpoch ≤ r.node.safetyRules.state.epoch ∨ r.signed = []
  | .restart => r.signed = []

def qcAt (round : UInt64) : QuorumCertificate := ⟨⟨0, round, 0, 0⟩, [], [], []⟩

theorem exists_ne_hash (h : H256) : ∃ h' : H256, h' ≠ h := by
  by_cases hzero : h = 0
  · exact ⟨1, by rw [hzero]; decide⟩
  · exact ⟨0, Ne.symm hzero⟩

variable {B : BlsScheme} {ev : EquivocationEvidence} {cast votes : List Vote}
  {rules rules' : SafetyRules}

theorem exposed_iff_record :
    Exposed rules votes ↔ ∃ data : VoteData, rules.state.highestVoteRound ≤ data.blockNumber ∧
      (data.blockNumber, data.phase) ∉ rules.state.votedPhases ∧
      (data.epoch = rules.state.epoch ∨ rules.state.epoch = 0) ∧
      ∃ v ∈ votes, ConflictsWith data v.data := by
  constructor
  · rintro ⟨data, parentQc, hpermits, hconflict⟩
    exact ⟨data, hpermits.round, hpermits.first, hpermits.epoch, hconflict⟩
  rintro ⟨data, hround, hfirst, hepoch, hconflict⟩
  exact ⟨data, qcAt rules.state.lockedRound,
    ⟨hround, hfirst, UInt64.le_refl _, hepoch⟩, hconflict⟩

theorem exposed_congr (h : SameRecord rules rules') (votes : List Vote) :
    Exposed rules' votes ↔ Exposed rules votes := by
  rw [exposed_iff_record, exposed_iff_record, h.votedPhases, h.highestVoteRound, h.epoch]

theorem not_exposed_of_rulesStep (h : ¬ Exposed rules votes)
    (hstep : RulesStep B rules rules' cast) : ¬ Exposed rules' (votes ++ cast) := by
  cases hstep with
  | quiet hsame =>
    rw [append_nil, exposed_congr hsame]
    exact h
  | @signed locked data parentQc hsame hpermits =>
    rw [exposed_iff_record]
    rintro ⟨other, hround, hfirst, hepoch, v, hv, hconflict⟩
    have hfirst' : (other.blockNumber, other.phase) ∉
        insert (data.blockNumber, data.phase) locked.state.votedPhases := hfirst
    rw [Finset.mem_insert, not_or] at hfirst'
    rcases mem_append.mp hv with hold | hnew
    · -- the same vote would have been signed before
      refine h ((exposed_congr hsame votes).mp (exposed_iff_record.mpr ?_))
      have hround' : data.blockNumber ≤ other.blockNumber := hround
      exact ⟨other, UInt64.le_trans hpermits.round hround', hfirst'.2, hepoch, v, hold, hconflict⟩
    · cases mem_singleton.mp hnew
      exact hfirst'.1 (Prod.ext hconflict.blockNumber hconflict.phase)

theorem noConflict_of_rulesStep (h : NoConflict votes) (hsafe : ¬ Exposed rules votes)
    (hstep : RulesStep B rules rules' cast) : NoConflict (votes ++ cast) := by
  cases hstep with
  | quiet _ =>
    rw [append_nil]
    exact h
  | @signed locked data parentQc hsame hpermits =>
    have hlocked : ¬ Exposed locked votes := fun hexposed => hsafe ((exposed_congr hsame votes).mp hexposed)
    have hnew : ∀ v ∈ votes, ¬ ConflictsWith data v.data := fun v hv hconflict =>
      hlocked ⟨data, parentQc, hpermits, v, hv, hconflict⟩
    intro v hv w hw hconflict
    rcases mem_append.mp hv with hv | hv <;> rcases mem_append.mp hw with hw | hw
    · exact h v hv w hw hconflict
    · cases mem_singleton.mp hw
      exact hnew v hv ⟨hconflict.blockNumber.symm, hconflict.phase.symm, hconflict.blockHash.symm⟩
    · cases mem_singleton.mp hv
      exact hnew w hw hconflict
    cases mem_singleton.mp hv
    cases mem_singleton.mp hw
    exact hconflict.blockHash rfl

/-! ## Steps -/

def RoundVoted (r : Replica) : Prop :=
  r.signed ≠ [] → ∃ v ∈ r.signed, r.node.safetyRules.state.highestVoteRound ≤ v.data.blockNumber

section

variable {B : BlsScheme} {cfg : NodeConfig} {r : Replica}

variable (B cfg) in
theorem build_state : (cfg.build B).safetyRules = .new B cfg.blsPriv cfg.address := by
  obtain ⟨seed, keys, hbuild⟩ := cfg.build_eq B
  rw [hbuild]
  rfl

theorem roundVoted_live (h : RoundVoted r) (step : LifeStep) : RoundVoted (live B cfg r step) := by
  cases step with
  | input input =>
    obtain ⟨votes, hsigned, hrules⟩ := r.receive_rules B input
    unfold live RoundVoted
    rw [hsigned]
    generalize (r.receive B input).node.safetyRules = rules' at hrules
    cases hrules with
    | quiet hsame =>
      rw [append_nil, hsame.highestVoteRound]
      exact h
    | @signed locked data parentQc hsame hpermits =>
      intro _
      exact ⟨_, mem_append_right _ (mem_singleton_self _), UInt64.le_refl _⟩
  | advanceEpoch newEpoch =>
    unfold live
    dsimp only
    split
    · exact h
    intro hne
    obtain ⟨v, hv, hle⟩ := h hne
    refine ⟨v, hv, ?_⟩
    have hround : (r.node.safetyRules.advanceEpoch newEpoch).state.highestVoteRound =
        r.node.safetyRules.state.highestVoteRound := by
      unfold advanceEpoch
      split <;> rfl
    exact hround ▸ hle
  | restart =>
    intro hne
    obtain ⟨v, hv⟩ := exists_mem_of_ne_nil _ hne
    refine ⟨v, hv, ?_⟩
    show (cfg.build B).safetyRules.state.highestVoteRound ≤ v.data.blockNumber
    rw [build_state]
    exact UInt64.zero_le

theorem exposed_of_forgotten {rules : SafetyRules} {votes : List Vote} {v : Vote}
    (hforgotten : rules.state.votedPhases = ∅) (hv : v ∈ votes)
    (hround : rules.state.highestVoteRound ≤ v.data.blockNumber) : Exposed rules votes := by
  obtain ⟨other, hother⟩ := exists_ne_hash v.data.blockHash
  refine exposed_iff_record.mpr ⟨⟨other, v.data.blockNumber, v.data.phase, rules.state.epoch⟩,
    hround, ?_, .inl rfl, v, hv, ⟨rfl, rfl, hother⟩⟩
  rw [hforgotten]
  exact Finset.notMem_empty _

theorem not_exposed_nil (rules : SafetyRules) : ¬ Exposed rules [] := by
  rintro ⟨_, _, _, v, hv, _⟩
  cases hv

theorem exposed_iff (hround : RoundVoted r) (hsafe : ¬ Exposed r.node.safetyRules r.signed)
    (step : LifeStep) :
    ¬ Exposed (live B cfg r step).node.safetyRules (live B cfg r step).signed ↔ Careful r step := by
  cases step with
  | input input =>
    obtain ⟨votes, hsigned, hrules⟩ := r.receive_rules B input
    refine ⟨fun _ => trivial, fun _ => ?_⟩
    unfold live
    rw [hsigned]
    exact not_exposed_of_rulesStep hsafe hrules
  | advanceEpoch newEpoch =>
    unfold live Careful
    dsimp only
    cases haborted : r.aborted with
    | true =>
      rw [if_pos rfl]
      exact ⟨fun _ => .inl rfl, fun _ => hsafe⟩
    | false =>
      rw [if_neg (by simp)]
      show ¬ Exposed (r.node.safetyRules.advanceEpoch newEpoch) r.signed ↔ _
      by_cases hlater : r.node.safetyRules.state.epoch < newEpoch
      · unfold advanceEpoch
        rw [if_pos hlater]
        constructor
        · intro hnot
          refine .inr (.inr ?_)
          by_contra hne
          obtain ⟨v, hv, hle⟩ := hround hne
          exact hnot (exposed_of_forgotten rfl hv hle)
        rintro (hfalse | hle | hnil)
        · cases hfalse
        · exact absurd hlater (UInt64.not_lt.mpr hle)
        · rw [hnil]
          exact not_exposed_nil _
      · unfold advanceEpoch
        rw [if_neg hlater]
        exact ⟨fun _ => .inr (.inl (UInt64.not_lt.mp hlater)), fun _ => hsafe⟩
  | restart =>
    show ¬ Exposed (cfg.build B).safetyRules r.signed ↔ r.signed = []
    constructor
    · intro hnot
      by_contra hne
      obtain ⟨v, hv⟩ := exists_mem_of_ne_nil _ hne
      refine hnot (exposed_of_forgotten ?_ hv ?_)
      · rw [build_state]
        rfl
      · rw [build_state]
        exact UInt64.zero_le
    · intro hnil
      rw [hnil]
      exact not_exposed_nil _

end

/-! ## Runs -/

def Unforged (B : BlsScheme) (pubkey : Bytes) (votes : List Vote) : Prop :=
  ∀ signature msg, B.verifySingle signature pubkey msg = true → ∃ v ∈ votes, v.data.digest = msg

def signedStrings (votes : List Vote) (ev : EquivocationEvidence) : Set Bytes :=
  {b | b ∈ (ev.voteA :: ev.voteB :: votes).map (·.data.signingBytes)}

theorem mem_signedStrings {v : Vote} (h : v ∈ ev.voteA :: ev.voteB :: votes) :
    v.data.signingBytes ∈ signedStrings votes ev :=
  mem_map.mpr ⟨v, h, rfl⟩

theorem conflicts_of_verify {verifySingle : VerifySingle} (h : ev.verify verifySingle = true) :
    ConflictsWith ev.voteA.data ev.voteB.data ∧
      verifySingle ev.voteA.signature ev.pubkey ev.voteA.data.digest = true ∧
      verifySingle ev.voteB.signature ev.pubkey ev.voteB.data.digest = true := by
  unfold EquivocationEvidence.verify at h
  split at h
  · cases h
  rename_i hchecks
  push Not at hchecks
  obtain ⟨-, -, hnumber, hphase, hhash, -, -⟩ := hchecks
  obtain ⟨hA, hB⟩ := (Bool.and_eq_true_iff).mp h
  exact ⟨⟨hnumber, hphase, hhash⟩, hA, hB⟩

theorem evidence_refused (hvotes : NoConflict votes) (hunforged : Unforged B ev.pubkey votes)
    (hfree : CollisionFree (signedStrings votes ev)) : ev.verify B.verifySingle = false := by
  by_contra hverify
  obtain ⟨hconflict, hA, hB⟩ := conflicts_of_verify (Bool.eq_true_of_not_eq_false hverify)
  obtain ⟨v, hv, hvA⟩ := hunforged _ _ hA
  obtain ⟨w, hw, hwB⟩ := hunforged _ _ hB
  have hvdata : v.data = ev.voteA.data := VoteData.signingBytes_injective
    (hfree.eq (mem_signedStrings (by simp [hv])) (mem_signedStrings (by simp)) hvA)
  have hwdata : w.data = ev.voteB.data := VoteData.signingBytes_injective
    (hfree.eq (mem_signedStrings (by simp [hw])) (mem_signedStrings (by simp)) hwB)
  refine hvotes v hv w hw ?_
  rw [hvdata, hwdata]
  exact hconflict

structure Undivided (r : Replica) : Prop where
  round : RoundVoted r
  safe : ¬ Exposed r.node.safetyRules r.signed
  noConflict : NoConflict r.signed

theorem undivided_start (node : HotStuffConsensus) : Undivided (.start node) :=
  ⟨fun h => absurd rfl h, not_exposed_nil _, nofun⟩

theorem Undivided.live {cfg : NodeConfig} {r : Replica} (h : Undivided r) {step : LifeStep}
    (hcareful : Careful r step) : Undivided (live B cfg r step) := by
  refine ⟨roundVoted_live h.round step, (exposed_iff h.round h.safe step).mpr hcareful, ?_⟩
  cases step with
  | input input =>
    obtain ⟨votes, hsigned, hrules⟩ := r.receive_rules B input
    show NoConflict (r.receive B input).signed
    rw [hsigned]
    exact noConflict_of_rulesStep h.noConflict h.safe hrules
  | advanceEpoch newEpoch =>
    unfold HotStuff.live
    dsimp only
    split
    · exact h.noConflict
    · exact h.noConflict
  | restart => exact h.noConflict

/-- The runs of a node in which its safety rules are never ready to sign a conflicting vote
are those in which it is not restarted, and its epoch not advanced, after its first vote. In
these its votes do not conflict, and no evidence against it verifies. -/
theorem never_double_signs (B : BlsScheme) (cfg : NodeConfig) (steps : List LifeStep) :
    (Always (live B cfg) (fun r => ¬ Exposed r.node.safetyRules r.signed) (.start (cfg.build B)) steps ↔
      Meets (live B cfg) Careful (.start (cfg.build B)) steps) ∧
    (Meets (live B cfg) Careful (.start (cfg.build B)) steps →
      NoConflict (steps.foldl (live B cfg) (.start (cfg.build B))).signed ∧
      ∀ ev : EquivocationEvidence, ev.pubkey = B.toPubkey cfg.blsPriv →
        Unforged B ev.pubkey (steps.foldl (live B cfg) (.start (cfg.build B))).signed →
        CollisionFree (signedStrings (steps.foldl (live B cfg) (.start (cfg.build B))).signed ev) →
        ev.verify B.verifySingle = false) := by
  have hstart := undivided_start (cfg.build B)
  constructor
  · exact always_iff_meets (I := RoundVoted) (fun r step hround => roundVoted_live hround step)
      (fun r step hround hsafe => exposed_iff hround hsafe step) hstart.round hstart.safe
  intro hmeets
  have hend : Undivided (steps.foldl (live B cfg) (.start (cfg.build B))) :=
    foldl_of_meets (fun r step hr hcareful => hr.live hcareful) hstart hmeets
  exact ⟨hend.noConflict, fun ev _ hunforged hfree => evidence_refused hend.noConflict hunforged hfree⟩

def twoProposals (between : List LifeStep) : List LifeStep :=
  .input (.proposal (sampleBlock 1 [1] []) (syntheticQc (sampleBlock 1 [1] []))) :: between ++
    [.input (.proposal (sampleBlock 1 [2] []) (syntheticQc (sampleBlock 1 [2] [])))]

/-- Only the first of the two is voted for. -/
theorem running_signs_once : NoConflict ((twoProposals []).foldl (live plainBls soloConfig)
      (.start (soloConfig.build plainBls))).signed := by
  refine ((never_double_signs plainBls soloConfig (twoProposals [])).2 ?_).1
  refine meets_cons.mpr ⟨trivial, meets_cons.mpr ⟨trivial, meets_nil⟩⟩

def prepareVote (extraData : Bytes) : Vote :=
  sign plainBls (prepareData (sampleBlock 1 extraData []))
    (.new plainBls [1] 0xa1)

/-- With a restart in between, or an advance to epoch 1, both are voted for, and the two votes
are evidence that verifies. -/
theorem restart_double_signs : ((twoProposals [.restart]).foldl (live plainBls soloConfig)
      (.start (soloConfig.build plainBls))).signed = [prepareVote [1], prepareVote [2]] ∧
    ((twoProposals [.advanceEpoch 1]).foldl (live plainBls soloConfig)
      (.start (soloConfig.build plainBls))).signed = [prepareVote [1], prepareVote [2]] ∧
    (EquivocationEvidence.mk 0xa1 1 0 (prepareVote [1]) (prepareVote [2])
      (plainBls.toPubkey soloConfig.blsPriv)).verify plainBls.verifySingle = true := by
  refine ⟨by decide +kernel, by decide +kernel, by decide +kernel⟩

def Vote.Before (v w : Vote) : Prop :=
  v.data.blockNumber ≤ w.data.blockNumber ∧
    (v.data.blockNumber, v.data.phase) ≠ (w.data.blockNumber, w.data.phase)

structure Ascending (r : Replica) : Prop where
  ordered : r.signed.Pairwise Vote.Before
  noted : ∀ v ∈ r.signed, v.data.blockNumber ≤ r.node.safetyRules.state.highestVoteRound ∧
    (v.data.blockNumber, v.data.phase) ∈ r.node.safetyRules.state.votedPhases

theorem Ascending.receive {r : Replica} (h : Ascending r) (B : BlsScheme) (input : Input) :
    Ascending (r.receive B input) := by
  obtain ⟨votes, hsigned, hrules⟩ := r.receive_rules B input
  generalize hafter : (r.receive B input).node.safetyRules = rules at hrules
  cases hrules with
  | quiet hsame =>
    rw [append_nil] at hsigned
    refine ⟨hsigned ▸ h.ordered, ?_⟩
    rw [hsigned, hafter, hsame.highestVoteRound, hsame.votedPhases]
    exact h.noted
  | @signed locked data parentQc hsame hpermits =>
    have hbefore : ∀ v ∈ r.signed, v.data.blockNumber ≤ data.blockNumber ∧
        (v.data.blockNumber, v.data.phase) ∈ locked.state.votedPhases := by
      intro v hv
      rw [hsame.votedPhases]
      refine ⟨UInt64.le_trans (h.noted v hv).1 ?_, (h.noted v hv).2⟩
      exact hsame.highestVoteRound ▸ hpermits.round
    constructor
    · rw [hsigned, pairwise_append]
      refine ⟨h.ordered, pairwise_singleton _ _, fun v hv w hw => ?_⟩
      obtain rfl := mem_singleton.mp hw
      exact ⟨(hbefore v hv).1, fun heq => hpermits.first (heq ▸ (hbefore v hv).2)⟩
    · rw [hsigned, hafter, forall_mem_append, forall_mem_singleton]
      refine ⟨fun v hv => ⟨(hbefore v hv).1, ?_⟩, UInt64.le_refl _, Finset.mem_insert_self _ _⟩
      exact Finset.mem_insert_of_mem (hbefore v hv).2

/-- **A running replica never votes backwards**, whatever it receives. -/
theorem votes_ascend (B : BlsScheme) (node : HotStuffConsensus) (inputs : List Input) :
    (inputs.foldl (Replica.receive B) (.start node)).signed.Pairwise Vote.Before := by
  refine Ascending.ordered ?_
  exact foldlRecOn inputs _ ⟨.nil, nofun⟩ fun r hr input _ => hr.receive B input

end ZbxChain.HotStuff
