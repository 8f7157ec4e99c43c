import ZbxChain.Staking.Delegations
import ZbxChain.Staking.Pipeline

/-!
# Who changes the status of a validator

Staking calls, elections, slash events and the slashing pipeline write validators. `Keeps` is what
each of them must respect so that a tombstoned validator stays so.
-/

namespace ZbxChain

open Option SlashingDetector Extends

/-! ## What must be kept -/

namespace ValidatorSet

def statusOf (vs : ValidatorSet) (addr : Address) : Option ValidatorStatus :=
  (vs.get addr).map (·.status)

def Keyed (vs : ValidatorSet) : Prop := ∀ addr v, vs.get addr = some v → v.address = addr

/-- Validators are kept under their address, and none in the active set is tombstoned. -/
structure Sound (vs : ValidatorSet) : Prop where
  keyed : vs.Keyed
  retired : ∀ addr, vs.statusOf addr = some .tombstoned → addr ∉ vs.activeSet

structure Keeps (addr : Address) (vs vs' : ValidatorSet) : Prop where
  sound : vs.Sound → vs'.Sound
  tombstoned : vs.statusOf addr = some .tombstoned → vs'.statusOf addr = some .tombstoned

variable {addr : Address} {vs vs' vs'' : ValidatorSet}

variable (addr vs) in
theorem Keeps.refl : Keeps addr vs vs := ⟨id, id⟩

theorem Keeps.trans (h : Keeps addr vs vs') (h' : Keeps addr vs' vs'') : Keeps addr vs vs'' :=
  ⟨fun hs => h'.sound (h.sound hs), fun ht => h'.tombstoned (h.tombstoned ht)⟩

theorem statusOf_put (vs : ValidatorSet) (a other : Address) (v : Validator) :
    (vs.put a v).statusOf other = if other = a then some v.status else vs.statusOf other := by
  unfold statusOf
  rw [get_put]
  split <;> rfl

variable {a : Address} {v : Validator}

theorem statusOf_of_get (h : vs.get addr = some v) : vs.statusOf addr = some v.status := by
  unfold statusOf
  rw [h]
  rfl

theorem Keyed.put (h : vs.Keyed) (haddr : v.address = a) : (vs.put a v).Keyed := by
  intro other v' hv'
  rw [get_put] at hv'
  split at hv'
  · rename_i heq
    cases hv'
    rw [heq, haddr]
  · exact h other v' hv'

theorem Sound.put (h : vs.Sound) (haddr : v.address = a)
    (hstatus : v.status = .tombstoned → a ∉ vs.activeSet) : (vs.put a v).Sound := by
  refine ⟨h.keyed.put haddr, fun other hother => ?_⟩
  rw [statusOf_put] at hother
  split at hother
  · rename_i heq
    rw [heq]
    exact hstatus (some.inj hother)
  · exact h.retired other hother

theorem keeps_put {v' : Validator} (hv : vs.get a = some v) (haddr : v'.address = v.address)
    (hstatus : v'.status = .tombstoned ↔ v.status = .tombstoned) : Keeps addr vs (vs.put a v') := by
  constructor
  · intro hs
    refine hs.put (haddr.trans (hs.keyed a v hv)) fun htomb => hs.retired a ?_
    rw [statusOf_of_get hv, hstatus.mp htomb]
  intro ht
  rw [statusOf_put]
  split
  · rename_i heq
    rw [heq, statusOf_of_get hv] at ht
    rw [hstatus.mpr (some.inj ht)]
  · exact ht

theorem keeps_put_new (hnone : vs.get a = none) (haddr : v.address = a)
    (hstatus : v.status ≠ .tombstoned) : Keeps addr vs (vs.put a v) := by
  refine ⟨fun hs => hs.put haddr fun htomb => absurd htomb hstatus, fun ht => ?_⟩
  rw [statusOf_put]
  split
  · rename_i heq
    unfold statusOf at ht
    rw [heq, hnone] at ht
    cases ht
  · exact ht

theorem keeps_modify (a : Address) {f : Validator → Validator}
    (haddr : ∀ v, (f v).address = v.address)
    (hstatus : ∀ v, (f v).status = .tombstoned ↔ v.status = .tombstoned) :
    Keeps addr vs (vs.modify a f) := by
  unfold modify
  split
  · rename_i v hv
    exact keeps_put hv (haddr v) (hstatus v)
  · exact .refl addr vs

/-! ## Registrations and staking calls -/

theorem keeps_register {blsPubkey : Bytes} {selfStake commissionBps : Nat}
    (h : vs.register a blsPubkey selfStake commissionBps = .ok vs') : Keeps addr vs vs' := by
  unfold register at h
  split_ifs at h with hnew hmin
  cases h
  rw [not_isSome_iff_eq_none] at hnew
  exact keeps_put_new hnew rfl (by simp)

end ValidatorSet

open ValidatorSet

theorem address_claimDelegatorShare (v : Validator) (stake : Nat) :
    (v.claimDelegatorShare stake).2.address = v.address ∧
      (v.claimDelegatorShare stake).2.status = v.status := by
  unfold Validator.claimDelegatorShare
  split <;> exact ⟨rfl, rfl⟩

theorem StakingEffect.keeps {B : Type} [BalanceAccess B] {db : ZbxDb} {sender : Address}
    {sent : Nat} {height : UInt64} {call : StakingTx} {s s' : StakingState B} {success : Bool}
    (h : StakingEffect db sender sent height call s success s') (addr : Address) :
    Keeps addr s.vs s'.vs := by
  cases h with
  | refused => exact .refl addr s.vs
  | registered v hnew hv =>
    refine keeps_put_new hnew hv.address ?_
    rw [hv.status]
    simp
  | delegated validator v _ hv _ _ => exact keeps_put hv rfl Iff.rfl
  | recordedOnly _ _ _ _ _ _ => exact .refl addr s.vs
  | undelegated validator v hv amount _ _ _ => exact keeps_put hv rfl Iff.rfl
  | withdrawn _ _ _ => exact .refl addr s.vs
  | rewarded v hv _ _ | unrewarded v hv _ _ => exact keeps_put hv rfl Iff.rfl
  | shared validator v hv _ stake _ | unshared validator v hv _ stake =>
    obtain ⟨haddr, hstatus⟩ := address_claimDelegatorShare v stake
    exact keeps_put hv haddr (by rw [hstatus])

/-! ## Elections -/

namespace ValidatorSet

variable {addr : Address} {vs vs' : ValidatorSet}

theorem demote_tombstoned (v : Validator) :
    (demote v).status = .tombstoned ↔ v.status = .tombstoned := by
  unfold demote
  split
  · rename_i hactive
    simp [hactive]
  · exact Iff.rfl

theorem activate_tombstoned (v : Validator) :
    (activate v).status = .tombstoned ↔ v.status = .tombstoned := by
  unfold activate
  split
  · rename_i htomb
    simp [htomb]
  · rename_i hne
    simp [hne]

variable {event : SlashEvent} {v : Validator} {f : Validator → Validator}
  {g : ValidatorStatus → ValidatorStatus}

theorem statusOf_modify (vs : ValidatorSet) (a other : Address)
    (hf : ∀ v, (f v).status = g v.status) : (vs.modify a f).statusOf other =
      if other = a then (vs.statusOf other).map g else vs.statusOf other := by
  unfold modify
  split
  · rename_i v hv
    rw [statusOf_put]
    split
    · rename_i heq
      rw [heq, statusOf_of_get hv, hf]
      rfl
    · rfl
  rename_i hnone
  split
  · rename_i heq
    rw [heq, statusOf, hnone]
    rfl
  · rfl

theorem activeSet_modify (vs : ValidatorSet) (a : Address) (f : Validator → Validator) :
    (vs.modify a f).activeSet = vs.activeSet := by
  unfold modify
  split <;> rfl

section

variable {f : Validator → Validator} (haddr : ∀ v, (f v).address = v.address)
  (hstatus : ∀ v, (f v).status = .tombstoned ↔ v.status = .tombstoned)

include haddr hstatus in
theorem keeps_foldl_modify (addr : Address) (l : List Address) (vs : ValidatorSet) :
    Keeps addr vs (l.foldl (fun vs a => vs.modify a f) vs) := by
  induction l generalizing vs with
  | nil => exact .refl addr vs
  | cons a rest ih => exact (keeps_modify a haddr hstatus).trans (ih _)

end

theorem statusOf_foldl_modify (hf : ∀ v, (f v).status = g v.status)
    (hg : ∀ status, g (g status) = g status) (l : List Address) (vs : ValidatorSet)
    (other : Address) : (l.foldl (fun vs a => vs.modify a f) vs).statusOf other =
      if other ∈ l then (vs.statusOf other).map g else vs.statusOf other := by
  induction l generalizing vs with
  | nil => rfl
  | cons a rest ih =>
    rw [List.foldl_cons, ih, statusOf_modify vs a other hf]
    by_cases ha : other = a <;> by_cases hrest : other ∈ rest <;>
      simp [ha, hrest, map_map, Function.comp_def, hg]

theorem statusOf_electActiveSet (vs : ValidatorSet) (other : Address) :
    vs.electActiveSet.statusOf other = if other ∈ vs.elected then
        (vs.statusOf other).map fun s => if s = .tombstoned then .tombstoned else .active
      else if other ∈ vs.activeSet then
        (vs.statusOf other).map fun s => if s = .active then .pending else s
      else vs.statusOf other := by
  have hactivated := statusOf_foldl_modify (f := activate)
    (g := fun s => if s = .tombstoned then .tombstoned else .active) (fun _ => rfl)
    (fun s => by split <;> simp) vs.elected
  have hdemoted := statusOf_foldl_modify (f := demote)
    (g := fun s => if s = .active then .pending else s) (fun _ => rfl)
    (fun s => by split <;> simp_all)
    (vs.activeSet.filter fun addr => !vs.elected.contains addr) vs other
  refine (hactivated _ other).trans ?_
  rw [hdemoted]
  by_cases hnew : other ∈ vs.elected <;> by_cases hold : other ∈ vs.activeSet <;>
    simp [hnew, hold]

theorem tombstoned_electActiveSet (vs : ValidatorSet) (other : Address) :
    vs.electActiveSet.statusOf other = some .tombstoned ↔ vs.statusOf other = some .tombstoned := by
  rw [statusOf_electActiveSet]
  cases vs.statusOf other with
  | none => split_ifs <;> simp
  | some s =>
    split_ifs <;> simp only [map_some, some_inj]
    · split <;> simp_all
    · split <;> simp_all

theorem Sound.not_mem_elected (h : vs.Sound) (ht : vs.statusOf addr = some .tombstoned) :
    addr ∉ vs.elected := by
  intro hmem
  obtain ⟨ranked, hranked, rfl⟩ := List.mem_map.mp hmem
  have hsorted := (List.mem_insertionSort _).mp (List.mem_of_mem_take hranked)
  obtain ⟨v, hv, rfl⟩ := List.mem_map.mp hsorted
  obtain ⟨hentry, heligible⟩ := List.mem_filter.mp hv
  obtain ⟨e, he, rfl⟩ := List.mem_map.mp hentry
  have hget : vs.get e.1 = some e.2 := AList.mem_lookup_iff.mpr he
  rw [h.keyed e.1 e.2 hget, statusOf_of_get hget] at ht
  unfold Validator.isEligible at heligible
  rw [some.inj ht, Bool.and_false] at heligible
  cases heligible

variable (addr vs) in
theorem keeps_electActiveSet : Keeps addr vs vs.electActiveSet := by
  have hdemote : ∀ v, (demote v).address = v.address := fun _ => rfl
  have hactivate : ∀ v, (activate v).address = v.address := fun _ => rfl
  refine ⟨fun hs => ⟨?_, fun other hother => ?_⟩, fun ht => ?_⟩
  · have hdemoted := (keeps_foldl_modify hdemote demote_tombstoned addr
      (vs.activeSet.filter fun addr => !vs.elected.contains addr) vs).sound hs
    exact ((keeps_foldl_modify hactivate activate_tombstoned addr vs.elected _).sound hdemoted).keyed
  · exact hs.not_mem_elected ((tombstoned_electActiveSet vs other).mp hother)
  · exact (tombstoned_electActiveSet vs addr).mpr ht

/-! ## Slash events -/

theorem punish_tombstoned (h : (event.punish v).status = .tombstoned) :
    event.jailed = false ∧ v.status = .tombstoned := by
  unfold SlashEvent.punish at h
  dsimp only at h
  split_ifs at h with hjailed hlow
  exact ⟨Bool.eq_false_of_not_eq_true hjailed, h⟩

theorem punish_of_not_jailed (hjailed : event.jailed = false) (h : v.status = .tombstoned) :
    (event.punish v).status = .tombstoned := by
  unfold SlashEvent.punish
  dsimp only
  rw [if_neg (by rw [hjailed]; exact Bool.false_ne_true), if_neg fun hlow => ?_, h]
  rw [h] at hlow
  cases hlow.2

theorem sound_punish (event : SlashEvent) (h : vs.Sound) :
    (vs.modify event.validator event.punish).Sound := by
  unfold modify
  split
  · rename_i v hv
    refine h.put (h.keyed _ v hv) fun htomb => h.retired _ ?_
    rw [statusOf_of_get hv, (punish_tombstoned htomb).2]
  · exact h

variable (d : SlashingDetector)

theorem statusOf_applySlashes_iff (event : SlashEvent) (ht : vs.statusOf addr = some .tombstoned) :
    (d.applySlashes [event] vs).2.statusOf addr = some .tombstoned ↔
      ¬ (event.validator = addr ∧ event.jailed = true ∧ slashEventId event ∉ d.processed) := by
  show (applySlash (d, vs) event).2.statusOf addr = _ ↔ _
  unfold applySlash
  dsimp only
  split
  · rename_i hprocessed
    exact ⟨fun _ hhit => hhit.2.2 hprocessed, fun _ => ht⟩
  rename_i hnew
  unfold modify
  split
  · rename_i v hv
    rw [statusOf_put]
    split
    · rename_i heq
      subst heq
      rw [statusOf_of_get hv] at ht
      constructor
      · intro hafter hhit
        have hjailed := (punish_tombstoned (some.inj hafter)).1
        rw [hjailed] at hhit
        cases hhit.2.1
      intro hmiss
      have hjailed : event.jailed = false := by
        by_contra hjailed
        exact hmiss ⟨rfl, Bool.eq_true_of_not_eq_false hjailed, hnew⟩
      rw [punish_of_not_jailed hjailed (some.inj ht)]
    · rename_i hne
      exact ⟨fun _ hhit => hne hhit.1.symm, fun _ => ht⟩
  · rename_i hnone
    refine ⟨fun _ hhit => ?_, fun _ => ht⟩
    rw [hhit.1] at hnone
    unfold statusOf at ht
    rw [hnone] at ht
    cases ht

theorem sound_applySlashes (event : SlashEvent) (h : vs.Sound) :
    (d.applySlashes [event] vs).2.Sound := by
  show (applySlash (d, vs) event).2.Sound
  unfold applySlash
  dsimp only
  split
  · exact h
  · exact sound_punish event h

/-! ## The pipeline -/

theorem creditReporter_statusOf (vs : ValidatorSet) (split : Address × Nat) (other : Address) :
    (vs.creditReporter split).statusOf other = vs.statusOf other := by
  unfold creditReporter
  split
  · rename_i w hw
    rw [statusOf_put]
    split
    · rename_i heq
      rw [heq, statusOf_of_get hw]
    · rfl
  · rfl

theorem Keyed.creditReporter (h : vs.Keyed) (split : Address × Nat) :
    (vs.creditReporter split).Keyed := by
  unfold ValidatorSet.creditReporter
  split
  · rename_i w hw
    exact h.put (h _ w hw)
  · exact h

theorem foldl_creditReporter (splits : List (Address × Nat)) (vs : ValidatorSet) :
    (vs.Keyed → (splits.foldl creditReporter vs).Keyed) ∧
      (∀ other, (splits.foldl creditReporter vs).statusOf other = vs.statusOf other) ∧
      (splits.foldl creditReporter vs).activeSet = vs.activeSet := by
  induction splits generalizing vs with
  | nil => exact ⟨id, fun _ => rfl, rfl⟩
  | cons split rest ih =>
    obtain ⟨hkeyed, hstatus, hactive⟩ := ih (vs.creditReporter split)
    refine ⟨fun h => hkeyed (h.creditReporter split), fun other => ?_, ?_⟩
    · exact (hstatus other).trans (creditReporter_statusOf vs split other)
    refine hactive.trans ?_
    unfold creditReporter
    split <;> rfl

/-- The validator set after the stake of the offender is burnt, before the rewards. -/
def burnt (vs : ValidatorSet) (offender : Address) (slashWei : Nat) (force : Bool) : ValidatorSet :=
  vs.modify offender fun v =>
    { v with selfStake := v.selfStake - min slashWei v.selfStake, status := v.status.slashed force }

theorem applySlashBurnV2_eq (vs : ValidatorSet) (offender : Address) (slashWei : Nat)
    (splits : List (Address × Nat)) (force : Bool) :
    (applySlashBurnV2 vs offender slashWei splits force).2 =
      { splits.foldl creditReporter (vs.burnt offender slashWei force) with
        activeSet := vs.activeSet.filter (· ≠ offender) } := by
  have hactive : (vs.burnt offender slashWei force).activeSet = vs.activeSet :=
    activeSet_modify vs offender _
  rw [← hactive, ← (foldl_creditReporter splits _).2.2]
  unfold applySlashBurnV2 burnt modify
  cases vs.get offender <;> rfl

theorem slashed_tombstoned (force : Bool) :
    ValidatorStatus.tombstoned.slashed force = .tombstoned := by
  cases force <;> rfl

theorem statusOf_applySlashBurnV2 (vs : ValidatorSet) (offender : Address) (slashWei : Nat)
    (splits : List (Address × Nat)) (force : Bool) (other : Address) :
    (applySlashBurnV2 vs offender slashWei splits force).2.statusOf other =
      if other = offender then (vs.statusOf other).map (·.slashed force) else vs.statusOf other := by
  rw [applySlashBurnV2_eq]
  refine ((foldl_creditReporter splits _).2.1 other).trans ?_
  exact statusOf_modify (g := (·.slashed force)) vs offender other fun _ => rfl

theorem keeps_applySlashBurnV2 (vs : ValidatorSet) (offender : Address) (slashWei : Nat)
    (splits : List (Address × Nat)) (force : Bool) :
    Keeps addr vs (applySlashBurnV2 vs offender slashWei splits force).2 := by
  have hstatus := statusOf_applySlashBurnV2 vs offender slashWei splits force
  refine ⟨fun hs => ⟨?_, fun other hother hmem => ?_⟩, fun ht => ?_⟩
  · rw [applySlashBurnV2_eq]
    refine (foldl_creditReporter splits (vs.burnt offender slashWei force)).1 ?_
    unfold burnt modify
    split
    · rename_i v hv
      exact hs.keyed.put (hs.keyed offender v hv)
    · exact hs.keyed
  · rw [applySlashBurnV2_eq] at hmem
    obtain ⟨hmem, hne⟩ := List.mem_filter.mp hmem
    rw [hstatus, if_neg (of_decide_eq_true hne)] at hother
    exact hs.retired other hother hmem
  rw [hstatus, ht]
  split
  · rw [map_some, slashed_tombstoned]
  · rfl

end ValidatorSet

namespace SlashingPipeline

variable {p p' : SlashingPipeline} {addr : Address}

theorem validators_persistRecord (p : SlashingPipeline) (id : H256) :
    (p.persistRecord id).validators = p.validators := by
  unfold persistRecord
  split <;> rfl

theorem validators_markApplied (p : SlashingPipeline) (id : H256) (jailed : Bool) :
    (p.markApplied id jailed).validators = p.validators :=
  validators_persistRecord _ id

variable {id : H256}

theorem validators_ingestEquivocation {verifySingle : VerifySingle} {ev : EquivocationEvidence}
    {submitter : Address} {block epoch : UInt64} {stake : Nat}
    (h : p.ingestEquivocation verifySingle ev submitter block epoch stake = .ok (id, p')) :
    p'.validators = p.validators := by
  unfold ingestEquivocation at h
  split at h
  swap
  · cases h
  obtain ⟨⟨outcome, registry⟩, -, h⟩ := bind_eq_ok.mp h
  cases outcome with
  | newRecord written | coWitnessAdded written =>
    cases h
    exact validators_persistRecord _ _
  | alreadyRecorded written =>
    cases h
    rfl

theorem validators_dispatchFileAppealTx {sender : Address} {value gas : Nat} {height : UInt64}
    (h : dispatchFileAppealTx p id sender value height = .ok (gas, p')) :
    p'.validators = p.validators := by
  unfold dispatchFileAppealTx at h
  split at h
  · cases h
  obtain ⟨registry, -, h⟩ := bind_eq_ok.mp h
  cases h
  exact validators_persistRecord _ _

theorem refundOffender_tombstoned (r : SlashEvidenceRecord) (bond : Nat) (v : Validator) :
    (refundOffender r bond v).status = .tombstoned ↔ v.status = .tombstoned := by
  unfold refundOffender
  dsimp only
  split
  · rename_i hjailed
    simp [hjailed.2.2]
  · exact Iff.rfl

theorem keeps_overturnAndRefund {result : AppliedOverturn}
    (h : p.overturnAndRefund id = .ok (result, p')) : Keeps addr p.validators p'.validators := by
  unfold overturnAndRefund at h
  split at h
  · cases h
  rename_i r hr
  split at h
  · cases h
  obtain ⟨⟨amount, registry⟩, -, h⟩ := bind_eq_ok.mp h
  cases h
  rw [validators_persistRecord]
  unfold refundedValidators
  split
  · rename_i v hv
    exact keeps_put hv rfl (refundOffender_tombstoned r _ v)
  · exact .refl addr _

/-! ### Ticks -/

abbrev KeepsAll (addr : Address) : PipelineM (List AppliedSlash) → Prop :=
  Extends fun p p' => Keeps addr p.validators p'.validators

theorem keeps_burn (addr : Address) (r : SlashEvidenceRecord) (finalized : FinalizedSlash)
    (p : SlashingPipeline) :
    ∃ applied p', burn r finalized p = .ok applied p' ∧ Keeps addr p.validators p'.validators := by
  refine ⟨_, _, rfl, ?_⟩
  rw [validators_markApplied]
  exact keeps_applySlashBurnV2 _ _ _ _ _

variable (block : UInt64)

theorem keepsAll_replayBurn (r : SlashEvidenceRecord) : KeepsAll addr (replayBurn block r) := by
  intro p
  unfold replayBurn
  split
  · exact .refl addr _
  rw [estate_bind_ok (estate_get p)]
  split
  · show Keeps addr p.validators (p.markApplied r.id false).validators
    rw [validators_markApplied]
    exact .refl addr _
  obtain ⟨applied, p', hburn, hkeeps⟩ := keeps_burn addr r (recomputeSplits r) p
  rw [estate_bind_ok hburn]
  exact hkeeps

theorem keepsAll_finalizeRecord (r : SlashEvidenceRecord) :
    KeepsAll addr (finalizeRecord block r) := by
  intro p
  unfold finalizeRecord
  rw [estate_bind_ok (estate_get p)]
  cases p.registry.finalizeSlash r.id block with
  | error e => exact .refl addr _
  | ok result =>
    obtain ⟨outcome, registry⟩ := result
    cases outcome with
    | none => exact .refl addr _
    | some finalized =>
      dsimp only
      cases registry.getRecord r.id with
      | none => exact .refl addr _
      | some updated =>
        have hset : (set ({ p with registry := registry }.persistRecord r.id) : PipelineM PUnit) p =
          .ok () ({ p with registry := registry }.persistRecord r.id) := rfl
        obtain ⟨applied, p', hburn, hkeeps⟩ := keeps_burn addr
          { r with evidenceType := updated.evidenceType } finalized
          ({ p with registry := registry }.persistRecord r.id)
        dsimp only
        rw [estate_bind_ok hset, estate_bind_ok hburn]
        rw [validators_persistRecord] at hkeeps
        exact hkeeps

theorem keepsAll_forRecords {f : SlashEvidenceRecord → PipelineM (List AppliedSlash)}
    (h : ∀ r, KeepsAll addr (f r)) (records : List SlashEvidenceRecord) :
    KeepsAll addr (forRecords f records) := by
  have htrans : ∀ a b c : SlashingPipeline, Keeps addr a.validators b.validators →
      Keeps addr b.validators c.validators → Keeps addr a.validators c.validators :=
    fun _ _ _ hab hbc => hab.trans hbc
  induction records with
  | nil => exact fun p => .refl addr _
  | cons r rest ih =>
    exact bind htrans (h r) fun _ => bind htrans ih fun _ p => .refl addr _

theorem keepsAll_tickFinalize : KeepsAll addr (tickFinalize block) := by
  have htrans : ∀ a b c : SlashingPipeline, Keeps addr a.validators b.validators →
      Keeps addr b.validators c.validators → Keeps addr a.validators c.validators :=
    fun _ _ _ hab hbc => hab.trans hbc
  have hget : Extends (fun p p' => Keeps addr p.validators p'.validators)
      (get : PipelineM SlashingPipeline) := fun p => .refl addr _
  refine bind htrans hget fun p => ?_
  refine bind htrans (keepsAll_forRecords (keepsAll_replayBurn block) _) fun _ => ?_
  refine bind htrans hget fun p' => ?_
  refine bind htrans (keepsAll_forRecords (keepsAll_finalizeRecord block) _) fun _ => ?_
  exact fun p => .refl addr _

end SlashingPipeline

end ZbxChain
