import ZbxChain.Staking.PipelineRecords

/-!
# The life of a slash record

The registry is used through five calls, in any order and at any blocks.
-/

namespace ZbxChain

open List SlashingPipeline

namespace SlashingRegistryV2

/-! ## Calls -/

inductive Call
  | submit (evidence : SlashEvidenceV2) (submittedBy : Address) (block epoch : UInt64)
      (offenderStake : Nat)
  | appeal (id : H256) (block : UInt64)
  | finalize (id : H256) (block : UInt64)
  | overturn (id : H256)
  | reject (id : H256)

def step (reg : SlashingRegistryV2) : Call → SlashingRegistryV2
  | .submit evidence submittedBy block epoch stake =>
    match reg.submitEvidence evidence submittedBy block epoch stake with
    | .ok (_, reg') => reg'
    | .error _ => reg
  | .appeal id block =>
    match reg.fileAppeal id block with
    | .ok reg' => reg'
    | .error _ => reg
  | .finalize id block =>
    match reg.finalizeSlash id block with
    | .ok (_, reg') => reg'
    | .error _ => reg
  | .overturn id =>
    match reg.overturnSlash id with
    | .ok (_, reg') => reg'
    | .error _ => reg
  | .reject id =>
    match reg.rejectAppeal id with
    | .ok (_, reg') => reg'
    | .error _ => reg

inductive Moves : Call → SlashEvidenceRecord → SlashEvidenceRecord → Prop
  | stays {c r r'} : r'.status = r.status → Moves c r r'
  | appealed {id block r r'} : r.status = .pending → r'.status = .appealed →
      block ≤ r.appealDeadline → Moves (.appeal id block) r r'
  | confirmed {id block r r'} : r.status = .pending → r'.status = .confirmed →
      r.appealDeadline < block → Moves (.finalize id block) r r'
  | overturned {id r r'} : r.status = .appealed → r'.status = .overturned →
      Moves (.overturn id) r r'
  | rejected {id r r'} : r.status = .appealed → r'.status = .confirmed → Moves (.reject id) r r'

inductive Effect (c : Call) (reg : SlashingRegistryV2) : SlashingRegistryV2 → Prop
  | unchanged : Effect c reg reg
  | moved {id r r'} (bonds : Map H256 (Address × Nat)) (hr : reg.getRecord id = some r)
      (hid : r'.id = r.id) (hdeadline : r'.appealDeadline = r.appealDeadline)
      (hmove : Moves c r r') : Effect c reg { reg.putRecord id r' with pendingBonds := bonds }
  | added {id r} (bonds : Map H256 (Address × Nat)) (hnew : reg.getRecord id = none)
      (hid : r.id = id) : Effect c reg { reg.putRecord id r with pendingBonds := bonds }

variable {reg : SlashingRegistryV2} {c : Call} {id : H256} {r : SlashEvidenceRecord}

theorem effect_submit (evidence : SlashEvidenceV2) (submittedBy : Address) (block epoch : UInt64)
    (stake : Nat) : Effect c reg (reg.step (.submit evidence submittedBy block epoch stake)) := by
  simp only [step, submitEvidence]
  cases evidence.offender with
  | none => exact .unchanged
  | some offender =>
    dsimp only
    cases hexisting : reg.getRecord (SlashEvidenceRecord.computeId evidence offender block) with
    | none => exact .added _ hexisting rfl
    | some existing =>
      dsimp only
      split_ifs
      · exact .unchanged
      · exact .unchanged
      · exact .moved _ hexisting rfl rfl (.stays rfl)

variable (reg c) in
theorem step_effect : Effect c reg (reg.step c) := by
  cases c with
  | submit evidence submittedBy block epoch stake => exact effect_submit ..
  | appeal id block =>
    simp only [step, fileAppeal]
    cases hr : reg.getRecord id with
    | none => exact .unchanged
    | some r =>
      dsimp only
      split_ifs with hpending hlate
      · exact .unchanged
      · exact .unchanged
      · exact .moved _ hr rfl rfl (.appealed (not_not.mp hpending) rfl (UInt64.not_lt.mp hlate))
  | finalize id block =>
    simp only [step, finalizeSlash_eq]
    cases hr : reg.getRecord id with
    | none => exact .unchanged
    | some r =>
      dsimp only
      split_ifs with hpending hopen
      · exact .unchanged
      · exact .unchanged
      · exact .moved _ hr rfl rfl (.confirmed (not_not.mp hpending) rfl (UInt64.not_le.mp hopen))
  | overturn id =>
    simp only [step, overturnSlash]
    cases hr : reg.getRecord id with
    | none => exact .unchanged
    | some r =>
      dsimp only
      split_ifs with happealed
      · exact .unchanged
      · exact .moved _ hr rfl rfl (.overturned (not_not.mp happealed) rfl)
  | reject id =>
    simp only [step, rejectAppeal]
    cases hr : reg.getRecord id with
    | none => exact .unchanged
    | some r =>
      dsimp only
      split_ifs with happealed
      · exact .unchanged
      · exact .moved _ hr rfl rfl (.rejected (not_not.mp happealed) rfl)

def Follows (c : Call) (reg' : SlashingRegistryV2) (id : H256) (r : SlashEvidenceRecord) : Prop :=
  ∃ r', reg'.getRecord id = some r' ∧ r'.appealDeadline = r.appealDeadline ∧ Moves c r r'

theorem step_moves (c : Call) (hr : reg.getRecord id = some r) : Follows c (reg.step c) id r := by
  generalize hstep : reg.step c = reg'
  cases hstep ▸ step_effect reg c with
  | unchanged => exact ⟨r, hr, rfl, .stays rfl⟩
  | @moved other r₀ r₁ bonds hr₀ hid hdeadline hmove =>
    have hget := getRecord_putRecord reg other id r₁
    by_cases heq : id = other
    · subst heq
      rw [if_pos rfl] at hget
      cases hr.symm.trans hr₀
      exact ⟨r₁, hget, hdeadline, hmove⟩
    · rw [if_neg heq] at hget
      exact ⟨r, hget.trans hr, rfl, .stays rfl⟩
  | @added other r₁ bonds hnew hid =>
    have hget := getRecord_putRecord reg other id r₁
    rw [if_neg fun heq => ?_] at hget
    · exact ⟨r, hget.trans hr, rfl, .stays rfl⟩
    · subst heq
      cases hnew.symm.trans hr

def Final (status : EvidenceStatus) : Prop := status = .confirmed ∨ status = .overturned

theorem Moves.final {r' : SlashEvidenceRecord} (h : Moves c r r') (hfinal : Final r.status) :
    r'.status = r.status := by
  cases h with
  | stays hsame => exact hsame
  | appealed hold | confirmed hold | overturned hold | rejected hold => simp [Final, hold] at hfinal

theorem steps_final (calls : List Call) (hr : reg.getRecord id = some r) (hfinal : Final r.status) :
    ∃ r', (calls.foldl step reg).getRecord id = some r' ∧ r'.status = r.status := by
  induction calls generalizing reg r with
  | nil => exact ⟨r, hr, rfl⟩
  | cons c calls ih =>
    obtain ⟨r₁, hr₁, -, hmove⟩ := step_moves c hr
    have hsame := hmove.final hfinal
    obtain ⟨r', hr', hstatus⟩ := ih hr₁ (hsame ▸ hfinal)
    exact ⟨r', hr', hstatus.trans hsame⟩

/-! ## Rewards -/

/-- Every reporter once, with the same share, and less than one unit for each is lost. -/
structure FairSplits (r : SlashEvidenceRecord) (f : FinalizedSlash) : Prop where
  recomputed : f = recomputeSplits r
  reporters : ∀ a, a ∈ f.splits.map (·.1) ↔ a = r.submittedBy ∨ a ∈ r.reporters
  distinct : (f.splits.map (·.1)).Nodup
  equal : ∀ s ∈ f.splits, ∀ t ∈ f.splits, s.2 = t.2
  atMost : (f.splits.map (·.2)).sum ≤ f.totalReward
  shortfall : f.totalReward - (f.splits.map (·.2)).sum < f.splits.length

theorem fairSplits_recompute (r : SlashEvidenceRecord) : FairSplits r (recomputeSplits r) := by
  let reporters := ((r.submittedBy :: r.reporters).insertionSort (· ≤ ·)).dedup
  let total := r.finalSlashWei * 500 % 2 ^ 128 / 10000
  have hsplits : (recomputeSplits r).splits =
      reporters.map fun a => (a, total / reporters.length) := rfl
  have hfst : (recomputeSplits r).splits.map (·.1) = reporters := by
    rw [hsplits, map_map]
    exact map_id _
  have hmem : ∀ a, a ∈ reporters ↔ a = r.submittedBy ∨ a ∈ r.reporters := fun a => by
    rw [mem_dedup, mem_insertionSort, mem_cons]
  have hpos : 0 < reporters.length := length_pos_of_mem ((hmem r.submittedBy).mpr (.inl rfl))
  have hsum : ((recomputeSplits r).splits.map (·.2)).sum =
      reporters.length * (total / reporters.length) := by
    rw [hsplits, map_map]
    exact (congrArg sum map_const').trans sum_replicate_nat
  have hreward : (recomputeSplits r).totalReward = total := rfl
  have hlength : (recomputeSplits r).splits.length = reporters.length := by
    rw [hsplits, length_map]
  have hdiv := Nat.div_add_mod total reporters.length
  have hmod := Nat.mod_lt total hpos
  refine ⟨rfl, fun a => hfst ▸ hmem a, hfst ▸ nodup_dedup _, ?_, ?_, ?_⟩
  · intro s hs t ht
    rw [hsplits] at hs ht
    obtain ⟨a, -, rfl⟩ := mem_map.mp hs
    obtain ⟨b, -, rfl⟩ := mem_map.mp ht
    rfl
  · rw [hsum, hreward]
    omega
  · rw [hsum, hreward, hlength]
    omega

theorem finalizeSlash_splits {reg' : SlashingRegistryV2} {block : UInt64} {f : FinalizedSlash}
    (h : reg.finalizeSlash id block = .ok (some f, reg')) :
    ∃ r', reg'.getRecord id = some r' ∧ FairSplits r' f := by
  rw [finalizeSlash_eq] at h
  split at h
  · cases h
  · next r hr =>
    split_ifs at h
    · cases h
    · cases h
    cases h
    refine ⟨_, (getRecord_putRecord reg id id _).trans (if_pos rfl), ?_⟩
    exact fairSplits_recompute { r with
      status := .confirmed, formatVersion := slashRecordFormatVersion, burnApplied := false }

/-- **The life of a record.** In every run, from any registry, each call takes each record along
one of the moves, a confirmed or overturned record stays so to the end, and each finalization
returns the fair splits of the record that it stores. -/
theorem record_life (reg : SlashingRegistryV2) (before : List Call) (c : Call) (after : List Call) :
    (∀ id r, (before.foldl step reg).getRecord id = some r →
      Follows c ((before ++ [c]).foldl step reg) id r ∧
      (Final r.status → ∃ r', ((before ++ c :: after).foldl step reg).getRecord id = some r' ∧
        r'.status = r.status)) ∧
    ∀ id block f, (∃ reg', (before.foldl step reg).finalizeSlash id block = .ok (some f, reg')) →
      ∃ r', ((before ++ [Call.finalize id block]).foldl step reg).getRecord id = some r' ∧
        FairSplits r' f := by
  constructor
  · intro id r hr
    rw [foldl_append, foldl_append]
    exact ⟨step_moves c hr, steps_final (c :: after) hr⟩
  rintro id block f ⟨reg', hfinal⟩
  rw [foldl_append]
  have hstep : (before.foldl step reg).step (.finalize id block) = reg' := by
    simp only [step, hfinal]
  rw [foldl_cons, foldl_nil, hstep]
  exact finalizeSlash_splits hfinal

def reported : List Call :=
  [.submit (.invalidBlock 1 0xb1) 0xc2 10 0 1000, .submit (.invalidBlock 1 0xb1) 0xc1 10 0 1000]

def reportedId : H256 := SlashEvidenceRecord.computeId (.invalidBlock 1 0xb1) 0xb1 10

def confirmation : Except StakingError (Option FinalizedSlash × SlashingRegistryV2) :=
  (reported.foldl step (new 4)).finalizeSlash reportedId (10 + appealWindowBlocks + 1)

/-- Once the window is closed, the slash is confirmed and both reporters share the reward. -/
theorem reported_block_confirmed : ∃ f r', f.splits = [(0xc1, 15), (0xc2, 15)] ∧ FairSplits r' f ∧
    ((reported ++ [Call.finalize reportedId (10 + appealWindowBlocks + 1)]).foldl step
      (new 4)).getRecord reportedId = some r' := by
  have hrun : (confirmation.toOption.bind (·.1)).map (·.splits) = some [(0xc1, 15), (0xc2, 15)] := by
    decide +kernel
  cases hfinal : confirmation with
  | error e =>
    rw [hfinal] at hrun
    cases hrun
  | ok result =>
    obtain ⟨_ | f, reg'⟩ := result
    · rw [hfinal] at hrun
      cases hrun
    rw [hfinal] at hrun
    obtain ⟨r', hr', hfair⟩ :=
      (record_life (new 4) reported (.appeal reportedId 0) []).2 _ _ f ⟨reg', hfinal⟩
    exact ⟨f, r', Option.some.inj hrun, hfair, hr'⟩

end SlashingRegistryV2

end ZbxChain
