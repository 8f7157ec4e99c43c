import Mathlib.Data.Sym.Sym2
import ZbxChain.Staking.PipelineRecords

/-!
# One slash for one equivocation

A run of the pipeline takes in evidence, ticks, takes and overturns appeals and restarts,
in any order, while its validator set may change. Its log names the record that each piece
of evidence went to, and the slashes that were burnt.
-/

namespace ZbxChain

open List

/-- Two conflicting votes: one validator, one round, one phase, two blocks in no order. -/
structure VotePair where
  validator : Address
  round : UInt64
  phase : UInt8
  hashes : Sym2 H256
  deriving DecidableEq

def EquivocationEvidence.pair (ev : EquivocationEvidence) : VotePair :=
  ⟨ev.validator, ev.round, ev.phase, s(ev.voteA.data.blockHash, ev.voteB.data.blockHash)⟩

namespace SlashingPipeline

/-! ## Runs -/

inductive Step
  | ingest (ev : EquivocationEvidence) (submitter : Address) (block epoch : UInt64) (stake : Nat)
  | tick (block : UInt64)
  | appeal (id : H256) (sender : Address) (value : Nat) (height : UInt64)
  | overturn (id : H256)
  | restart (totalValidators : UInt64)
  | validators (vs : ValidatorSet)

/-- Evidence that was taken in: its votes, the block, and the record it went to. -/
structure Ingested where
  pair : VotePair
  block : UInt64
  id : H256

structure Run where
  pipeline : SlashingPipeline
  ingested : List Ingested
  applied : List AppliedSlash

def Run.step (verifySingle : VerifySingle) (r : Run) : Step → Run
  | .ingest ev submitter block epoch stake =>
    match r.pipeline.ingestEquivocation verifySingle ev submitter block epoch stake with
    | .ok (id, p) => { r with pipeline := p, ingested := r.ingested ++ [⟨ev.pair, block, id⟩] }
    | .error _ => r
  | .tick block =>
    match tickFinalize block r.pipeline with
    | .ok applied p => { r with pipeline := p, applied := r.applied ++ applied }
    | .error _ p => { r with pipeline := p }
  | .appeal id sender value height =>
    match dispatchFileAppealTx r.pipeline id sender value height with
    | .ok (_, p) => { r with pipeline := p }
    | .error _ => r
  | .overturn id =>
    match r.pipeline.overturnAndRefund id with
    | .ok (_, p) => { r with pipeline := p }
    | .error _ => r
  | .restart totalValidators =>
    { r with pipeline :=
        { r.pipeline with registry := .new totalValidators }.rehydrateFromDisk }
  | .validators vs => { r with pipeline := { r.pipeline with validators := vs } }

def Run.start (totalValidators : UInt64) (validators : ValidatorSet) : Run :=
  ⟨.new totalValidators validators, [], []⟩

def Run.steps (verifySingle : VerifySingle) (r : Run) (steps : List Step) : Run :=
  steps.foldl (Run.step verifySingle) r

variable {p : SlashingPipeline}

/-! ## Whole runs -/

/-- The log tells the truth: evidence went to the record of its offender and block, and
what was burnt is confirmed, each record once. -/
structure Run.Sound (r : Run) : Prop where
  consistent : Consistent r.pipeline
  named : ∀ i ∈ r.ingested,
    i.id = SlashEvidenceRecord.computeIdForOffender i.pair.validator i.block .doubleSign
  confirmed : ∀ a ∈ r.applied,
    ∃ rec, r.pipeline.registry.getRecord a.recordId = some rec ∧ rec.status = .confirmed
  nodup : (r.applied.map (·.recordId)).Nodup

theorem Run.sound_start (totalValidators : UInt64) (validators : ValidatorSet) :
    (Run.start totalValidators validators).Sound where
  consistent := ⟨fun _ => rfl, fun _ _ h => (Option.some_ne_none _ h.symm).elim,
    fun _ _ h => (Option.some_ne_none _ h.symm).elim⟩
  named _ h := absurd h not_mem_nil
  confirmed _ h := absurd h not_mem_nil
  nodup := nodup_nil

theorem Run.Sound.of_forward {r : Run} (h : r.Sound) (hp : Consistent p)
    (hforward : Forward r.pipeline p) : Run.Sound { r with pipeline := p } where
  consistent := hp
  named := h.named
  confirmed a ha := by
    obtain ⟨rec, hrec, hconf⟩ := h.confirmed a ha
    obtain ⟨rec', hrec', hconf'⟩ := hforward _ rec hrec
    exact ⟨rec', hrec', hconf' hconf⟩
  nodup := h.nodup

theorem Run.Sound.tick {r : Run} {applied : List AppliedSlash} (h : r.Sound)
    (hticked : Ticked r.pipeline applied p) :
    Run.Sound { r with pipeline := p, applied := r.applied ++ applied } where
  consistent := hticked.consistent
  named := h.named
  confirmed a ha := by
    rcases mem_append.mp ha with ha | ha
    · exact (h.of_forward hticked.consistent hticked.forward).confirmed a ha
    · exact hticked.confirmed a ha
  nodup := by
    rw [map_append, nodup_append]
    refine ⟨h.nodup, hticked.nodup, fun old hold new hnew heq => ?_⟩
    obtain ⟨a, ha, rfl⟩ := mem_map.mp hold
    obtain ⟨b, hb, rfl⟩ := mem_map.mp hnew
    obtain ⟨rec, hrec, hconf⟩ := h.confirmed a ha
    obtain ⟨rec', hrec', hpending⟩ := hticked.pending b hb
    rw [heq, hrec'] at hrec
    rw [Option.some.inj hrec, hconf] at hpending
    cases hpending

theorem Run.Sound.step {r : Run} (h : r.Sound) (verifySingle : VerifySingle) (step : Step) :
    (r.step verifySingle step).Sound := by
  cases step with
  | ingest ev submitter block epoch stake =>
    unfold Run.step
    dsimp only
    split
    · rename_i id p hok
      obtain ⟨hid, hp, hforward⟩ := ingestEquivocation_spec h.consistent hok
      have hnext := h.of_forward hp hforward
      refine ⟨hnext.consistent, fun i hi => ?_, hnext.confirmed, hnext.nodup⟩
      rcases mem_append.mp hi with hi | hi
      · exact h.named i hi
      · rw [mem_singleton.mp hi]
        exact hid
    · exact h
  | tick block =>
    obtain ⟨applied, p, hok, hticked⟩ := tickFinalize_spec block h.consistent
    have hstep : r.step verifySingle (.tick block) =
        { r with pipeline := p, applied := r.applied ++ applied } := by
      simp only [Run.step, hok]
    rw [hstep]
    exact h.tick hticked
  | appeal id sender value height =>
    unfold Run.step
    dsimp only
    split
    · rename_i gas p hok
      obtain ⟨hp, hforward⟩ := dispatchFileAppealTx_spec h.consistent hok
      exact h.of_forward hp hforward
    · exact h
  | overturn id =>
    unfold Run.step
    dsimp only
    split
    · rename_i result p hok
      obtain ⟨hp, hforward⟩ := overturnAndRefund_spec h.consistent hok
      exact h.of_forward hp hforward
    · exact h
  | restart totalValidators =>
    have hget := getRecord_rehydrate h.consistent totalValidators
    refine h.of_forward ⟨fun id => ?_, fun id r hr => ?_, fun id r hr => ?_⟩ fun id r hr => ?_
    · exact (h.consistent.sync id).trans (hget id).symm
    · exact h.consistent.keyed id r ((hget id).symm.trans hr)
    · exact h.consistent.burnt id r ((hget id).symm.trans hr)
    · exact ⟨r, (hget id).trans hr, fun hconf => hconf⟩
  | validators vs =>
    exact h.of_forward ⟨h.consistent.sync, h.consistent.keyed, h.consistent.burnt⟩
      (Forward.refl r.pipeline)

theorem Run.Sound.steps {r : Run} (h : r.Sound) (verifySingle : VerifySingle) (steps : List Step) :
    (r.steps verifySingle steps).Sound := by
  induction steps generalizing r with
  | nil => exact h
  | cons step rest ih => exact ih (h.step verifySingle step)

/-! ## Equivocations and their records -/

def Run.confirmedFor (r : Run) (pair : VotePair) : Set H256 :=
  { id | (∃ i ∈ r.ingested, i.pair = pair ∧ i.id = id) ∧
    ∃ rec, r.pipeline.registry.getRecord id = some rec ∧ rec.status = .confirmed }

def Run.burnsFor (r : Run) (pair : VotePair) : List AppliedSlash :=
  r.applied.filter fun a => ∃ i ∈ r.ingested, i.pair = pair ∧ i.id = a.recordId

def Run.Separate (r : Run) : Prop :=
  ∀ i ∈ r.ingested, ∀ j ∈ r.ingested, i.id = j.id →
    i.pair.round = j.pair.round ∧ i.pair.phase = j.pair.phase

def Ingested.idPreimage (i : Ingested) : Bytes :=
  SlashEvidenceRecord.idPreimage i.pair.validator i.block .doubleSign

theorem idPreimage_inj {a b : Address} {m n : UInt64} {t : EvidenceType}
    (h : SlashEvidenceRecord.idPreimage a m t = SlashEvidenceRecord.idPreimage b n t) :
    a = b ∧ m = n := by
  unfold SlashEvidenceRecord.idPreimage at h
  rw [append_assoc, append_assoc] at h
  obtain ⟨haddr, hrest⟩ := append_inj h (by simp)
  obtain ⟨hblock, -⟩ := append_inj hrest
    ((Keccak.length_leBytes _ _).trans (Keccak.length_leBytes _ _).symm)
  refine ⟨Address.toBytes_injective haddr, UInt64.toNat_inj.mp ?_⟩
  exact Keccak.leBytes_inj m.toNat_lt n.toNat_lt hblock

section

variable {r : Run} (h : r.Sound)
  (hfree : Set.InjOn sha3_256 { m | ∃ i ∈ r.ingested, i.idPreimage = m })
include h

theorem Run.Sound.id_eq_of_block {i j : Ingested} (hi : i ∈ r.ingested) (hj : j ∈ r.ingested)
    (hvalidator : i.pair.validator = j.pair.validator) (hblock : i.block = j.block) :
    i.id = j.id := by
  rw [h.named i hi, h.named j hj, hvalidator, hblock]

include hfree

theorem Run.Sound.id_eq_iff {i j : Ingested} (hi : i ∈ r.ingested) (hj : j ∈ r.ingested) :
    i.id = j.id ↔ i.pair.validator = j.pair.validator ∧ i.block = j.block := by
  refine ⟨fun heq => ?_, fun ⟨hvalidator, hblock⟩ => h.id_eq_of_block hi hj hvalidator hblock⟩
  rw [h.named i hi, h.named j hj] at heq
  exact idPreimage_inj (hfree ⟨i, hi, rfl⟩ ⟨j, hj, rfl⟩ heq)

end

theorem length_le_one_of_nodup_map {α β : Type} {f : α → β} {l : List α} (h : (l.map f).Nodup)
    (hsame : ∀ a ∈ l, ∀ b ∈ l, f a = f b) : l.length ≤ 1 := by
  match l with
  | [] => exact Nat.zero_le 1
  | [a] => exact Nat.le_refl 1
  | a :: b :: rest =>
    have hab := hsame a mem_cons_self b (mem_cons_of_mem a mem_cons_self)
    have hnotin := (nodup_cons.mp h).1
    exact absurd (hab ▸ mem_cons_self) hnotin

theorem Run.Sound.slashed_once {r : Run} (h : r.Sound) {pair : VotePair}
    (hblock : ∀ i ∈ r.ingested, ∀ j ∈ r.ingested, i.pair = pair → j.pair = pair →
      i.block = j.block) : (r.confirmedFor pair).Subsingleton ∧ (r.burnsFor pair).length ≤ 1 := by
  have hsame : ∀ i ∈ r.ingested, ∀ j ∈ r.ingested, i.pair = pair → j.pair = pair → i.id = j.id := by
    intro i hi j hj hpi hpj
    exact h.id_eq_of_block hi hj (by rw [hpi, hpj]) (hblock i hi j hj hpi hpj)
  constructor
  · rintro _ ⟨⟨i, hi, hpi, rfl⟩, -⟩ _ ⟨⟨j, hj, hpj, rfl⟩, -⟩
    exact hsame i hi j hj hpi hpj
  refine length_le_one_of_nodup_map (f := (·.recordId)) ?_ fun a ha b hb => ?_
  · exact h.nodup.sublist (filter_sublist.map _)
  obtain ⟨i, hi, hpi, hia⟩ := of_decide_eq_true (mem_filter.mp ha).2
  obtain ⟨j, hj, hpj, hjb⟩ := of_decide_eq_true (mem_filter.mp hb).2
  rw [← hia, ← hjb]
  exact hsame i hi j hj hpi hpj

/-- In every run of the pipeline: different rounds and phases have their own records exactly
when no two of them come in for one validator at one block, and the votes of a pair that
come in at one block are confirmed and burnt at most once. -/
theorem equivocation_slashed_once (verifySingle : VerifySingle) (totalValidators : UInt64)
    (validators : ValidatorSet) (steps : List Step) (r : Run)
    (hrun : (Run.start totalValidators validators).steps verifySingle steps = r)
    (hfree : Set.InjOn sha3_256 { m | ∃ i ∈ r.ingested, i.idPreimage = m }) :
    (r.Separate ↔ ∀ i ∈ r.ingested, ∀ j ∈ r.ingested,
      i.pair.validator = j.pair.validator → i.block = j.block →
        i.pair.round = j.pair.round ∧ i.pair.phase = j.pair.phase) ∧ ∀ pair,
      ((∀ i ∈ r.ingested, ∀ j ∈ r.ingested, i.pair = pair → j.pair = pair → i.id = j.id) ↔
        ∀ i ∈ r.ingested, ∀ j ∈ r.ingested, i.pair = pair → j.pair = pair → i.block = j.block) ∧
      ((∀ i ∈ r.ingested, ∀ j ∈ r.ingested, i.pair = pair → j.pair = pair → i.block = j.block) →
        (r.confirmedFor pair).Subsingleton ∧ (r.burnsFor pair).length ≤ 1) := by
  have h : r.Sound := hrun ▸ (Run.sound_start totalValidators validators).steps verifySingle steps
  refine ⟨⟨?_, ?_⟩, fun pair => ⟨⟨?_, ?_⟩, h.slashed_once⟩⟩
  · intro hseparate i hi j hj hvalidator hblock
    exact hseparate i hi j hj (h.id_eq_of_block hi hj hvalidator hblock)
  · intro hcond i hi j hj heq
    obtain ⟨hvalidator, hblock⟩ := (h.id_eq_iff hfree hi hj).mp heq
    exact hcond i hi j hj hvalidator hblock
  · intro hone i hi j hj hpi hpj
    exact ((h.id_eq_iff hfree hi hj).mp (hone i hi j hj hpi hpj)).2
  · intro hblock i hi j hj hpi hpj
    exact h.id_eq_of_block hi hj (by rw [hpi, hpj]) (hblock i hi j hj hpi hpj)

def sampleEvidence (round : UInt64) (phase : UInt8) : EquivocationEvidence where
  validator := 7
  round := round
  phase := phase
  voteA := ⟨⟨1, round, phase, 0⟩, 7, []⟩
  voteB := ⟨⟨2, round, phase, 0⟩, 7, []⟩
  pubkey := []

def sampleRun (steps : List Step) : Run :=
  (Run.start 4 .new).steps (fun _ _ _ => true) steps

/-- Two reporters at one block, then the tick that closes the window. -/
theorem equivocation_slashed_once_sample :
    ((sampleRun [.ingest (sampleEvidence 3 1) 8 5 0 1000, .ingest (sampleEvidence 3 1) 9 5 0 1000,
      .tick 172806]).burnsFor (sampleEvidence 3 1).pair).length ≤ 1 := by
  have hpreimages : ∀ i ∈ (sampleRun [.ingest (sampleEvidence 3 1) 8 5 0 1000,
      .ingest (sampleEvidence 3 1) 9 5 0 1000, .tick 172806]).ingested,
      i.idPreimage = SlashEvidenceRecord.idPreimage 7 5 .doubleSign ∧ i.block = 5 := by
    decide +kernel
  refine ((equivocation_slashed_once (fun _ _ _ => true) 4 .new _ _ rfl ?_).2 _).2 ?_ |>.2
  · rintro m ⟨i, hi, rfl⟩ n ⟨j, hj, rfl⟩ -
    rw [(hpreimages i hi).1, (hpreimages j hj).1]
  · intro i hi j hj _ _
    rw [(hpreimages i hi).2, (hpreimages j hj).2]

/-- The same votes at two blocks are burnt twice, and votes of two rounds at one block go
to one record. -/
theorem equivocation_burnt_twice :
    ((sampleRun [.ingest (sampleEvidence 3 1) 8 5 0 1000, .ingest (sampleEvidence 3 1) 8 6 0 1000,
      .tick 172807]).burnsFor (sampleEvidence 3 1).pair).length = 2 ∧
    ¬ (sampleRun [.ingest (sampleEvidence 3 1) 8 5 0 1000,
      .ingest (sampleEvidence 4 1) 9 5 0 1000]).Separate := by
  constructor
  · decide +kernel
  · unfold Run.Separate
    decide +kernel

end SlashingPipeline

end ZbxChain
