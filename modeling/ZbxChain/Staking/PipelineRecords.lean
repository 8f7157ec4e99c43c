import ZbxChain.Lib.FiniteMap
import ZbxChain.Staking.Pipeline

/-!
# The records of the slashing pipeline

What every operation of the pipeline does to the records in memory and on disk.
-/

namespace ZbxChain

open SlashingRegistryV2 List FiniteMap

namespace SlashingPipeline

/-! ## Records -/

/-- The registry and the disk agree, records have their own names, and a confirmed record
is burnt. -/
structure Consistent (p : SlashingPipeline) : Prop where
  sync : ∀ id, p.store.records.lookup id = p.registry.getRecord id
  keyed : ∀ id r, p.registry.getRecord id = some r → r.id = id
  burnt : ∀ id r, p.registry.getRecord id = some r → r.status = .confirmed → r.burnApplied = true

def Forward (p p' : SlashingPipeline) : Prop :=
  ∀ id r, p.registry.getRecord id = some r →
    ∃ r', p'.registry.getRecord id = some r' ∧ (r.status = .confirmed → r'.status = .confirmed)

theorem Forward.refl (p : SlashingPipeline) : Forward p p := fun _ r h => ⟨r, h, id⟩

variable {submitter : Address} {ev : EquivocationEvidence} {stake : Nat}
  {r r₀ : SlashEvidenceRecord} {p'' q : SlashingPipeline} {reg : SlashingRegistryV2}
  {block epoch : UInt64}

theorem Forward.trans {p p' : SlashingPipeline} (h : Forward p p') (h' : Forward p' p'') :
    Forward p p'' := by
  intro id r hr
  obtain ⟨r', hr', hc⟩ := h id r hr
  obtain ⟨r'', hr'', hc'⟩ := h' id r' hr'
  exact ⟨r'', hr'', fun hconf => hc' (hc hconf)⟩

variable {p p' : SlashingPipeline} {id : H256}

theorem getRecord_putRecord (reg : SlashingRegistryV2) (id other : H256) (r : SlashEvidenceRecord) :
    (reg.putRecord id r).getRecord other = if other = id then some r else reg.getRecord other :=
  lookup_insert_eq _ _ _ _

structure Replaces (p : SlashingPipeline) (id : H256) (r : SlashEvidenceRecord)
    (p' : SlashingPipeline) : Prop where
  registry : ∀ other, p'.registry.getRecord other =
    if other = id then some r else p.registry.getRecord other
  store : ∀ other, p'.store.records.lookup other =
    if other = id then some r else p.store.records.lookup other

theorem Replaces.consistent (h : Replaces p id r p') (hp : Consistent p) (hid : r.id = id)
    (hburnt : r.status = .confirmed → r.burnApplied = true) : Consistent p' where
  sync other := by rw [h.store, h.registry, hp.sync]
  keyed other r' hr' := by
    rw [h.registry] at hr'
    split at hr'
    · rename_i heq
      rw [heq, ← Option.some.inj hr', hid]
    · exact hp.keyed other r' hr'
  burnt other r' hr' := by
    rw [h.registry] at hr'
    split at hr'
    · rw [← Option.some.inj hr']
      exact hburnt
    · exact hp.burnt other r' hr'

theorem Replaces.forward (h : Replaces p id r p')
    (hold : ∀ r₀, p.registry.getRecord id = some r₀ → r₀.status = .confirmed →
      r.status = .confirmed) : Forward p p' := by
  intro other r' hr'
  rw [h.registry]
  by_cases heq : other = id
  · subst heq
    rw [if_pos rfl]
    exact ⟨r, rfl, hold r' hr'⟩
  · rw [if_neg heq]
    exact ⟨r', hr', fun hconf => hconf⟩

theorem replaces_persist (hid : r.id = id) (hreg : ∀ other, p'.registry.getRecord other =
      if other = id then some r else p.registry.getRecord other)
    (hstore : ∀ other, other ≠ id → p'.store.records.lookup other = p.store.records.lookup other) :
    Replaces p id r (p'.persistRecord id) := by
  have hget : p'.registry.getRecord id = some r := by rw [hreg, if_pos rfl]
  have heq : p'.persistRecord id = { p' with store := p'.store.putRecord r } := by
    unfold persistRecord
    rw [hget]
  rw [heq]
  refine ⟨hreg, fun other => ?_⟩
  subst hid
  refine (lookup_insert_eq p'.store.records r.id other r).trans ?_
  split
  · rfl
  · rename_i hother
    exact hstore other hother

/-! ## Evidence and appeals -/

theorem getRecord_submitEvidence {reg' : SlashingRegistryV2} {outcome : SubmitOutcome}
    (h : reg.submitEvidence (evidenceToDoubleSign ev) submitter block epoch stake =
      .ok (outcome, reg')) :
    outcome.recordId = SlashEvidenceRecord.computeIdForOffender ev.validator block .doubleSign ∧
      ((outcome = .alreadyRecorded outcome.recordId ∧ reg' = reg) ∨
        (outcome ≠ .alreadyRecorded outcome.recordId ∧ ∃ r : SlashEvidenceRecord,
          (∀ r₀, reg.getRecord outcome.recordId = some r₀ → r₀.status = .pending ∧ r.id = r₀.id) ∧
          (reg.getRecord outcome.recordId = none → r.id = outcome.recordId) ∧ r.status = .pending ∧
          ∀ other, reg'.getRecord other =
            if other = outcome.recordId then some r else reg.getRecord other)) := by
  unfold submitEvidence at h
  simp only [evidenceToDoubleSign, SlashEvidenceV2.offender] at h
  split at h
  · rename_i existing hexisting
    split_ifs at h with hstatus hlisted
    · cases h
      exact ⟨rfl, .inl ⟨rfl, rfl⟩⟩
    · cases h
      exact ⟨rfl, .inl ⟨rfl, rfl⟩⟩
    cases h
    rw [not_not] at hstatus
    refine ⟨rfl, .inr ⟨by simp, { existing with reporters := existing.reporters ++ [submitter] },
      ?_, ?_, hstatus, ?_⟩⟩
    · intro r₀ hr₀
      cases hexisting.symm.trans hr₀
      exact ⟨hstatus, rfl⟩
    · intro hnone
      cases hexisting.symm.trans hnone
    · exact fun other => getRecord_putRecord reg _ other _
  · rename_i hnone
    cases h
    refine ⟨rfl, .inr ⟨by simp, _, ?_, ?_, ?_, fun other => getRecord_putRecord reg _ other _⟩⟩
    · intro r₀ hr₀
      cases hnone.symm.trans hr₀
    · exact fun _ => rfl
    · rfl

theorem ingestEquivocation_spec {verifySingle : VerifySingle} (hp : Consistent p)
    (h : p.ingestEquivocation verifySingle ev submitter block epoch stake = .ok (id, p')) :
    id = SlashEvidenceRecord.computeIdForOffender ev.validator block .doubleSign ∧
      Consistent p' ∧ Forward p p' := by
  unfold ingestEquivocation at h
  split at h
  swap
  · cases h
  obtain ⟨⟨outcome, registry⟩, hsubmit, h⟩ := bind_eq_ok.mp h
  obtain ⟨hid, hcases⟩ := getRecord_submitEvidence hsubmit
  -- a record that was written is put on disk, then the bond
  have hwritten : ∀ written : H256, outcome.recordId = written →
      outcome ≠ .alreadyRecorded outcome.recordId →
      Consistent ({ p with registry := registry }.persistRecord written) ∧
        Forward p ({ p with registry := registry }.persistRecord written) := by
    rintro written rfl hnew
    rcases hcases with ⟨halready, -⟩ | ⟨-, r, hold, hfresh, hpending, hget⟩
    · exact absurd halready hnew
    have hrid : r.id = outcome.recordId := by
      cases hprev : p.registry.getRecord outcome.recordId with
      | none => exact hfresh hprev
      | some r₀ => rw [(hold r₀ hprev).2, hp.keyed _ _ hprev]
    have hreplaces : Replaces p outcome.recordId r
        ({ p with registry := registry }.persistRecord outcome.recordId) :=
      replaces_persist hrid hget fun _ _ => rfl
    refine ⟨hreplaces.consistent hp hrid fun hconf => ?_, hreplaces.forward fun r₀ hr₀ hconf => ?_⟩
    · rw [hpending] at hconf
      cases hconf
    · rw [(hold r₀ hr₀).1] at hconf
      cases hconf
  cases outcome with
  | newRecord written | coWitnessAdded written =>
    cases h
    obtain ⟨hcons, hforward⟩ := hwritten _ rfl (by simp)
    exact ⟨hid, ⟨hcons.sync, hcons.keyed, hcons.burnt⟩, hforward⟩
  | alreadyRecorded written =>
    cases h
    rcases hcases with ⟨-, rfl⟩ | ⟨hnew, -⟩
    · exact ⟨hid, hp, Forward.refl p⟩
    · exact absurd rfl hnew

theorem restatus_spec {status : EvidenceStatus} (hp : Consistent p)
    (hr : p.registry.getRecord id = some r) (hold : r.status ≠ .confirmed)
    (hnew : status ≠ .confirmed)
    (hregistry : q.registry = p.registry.putRecord id { r with status := status })
    (hstore : q.store.records = p.store.records) :
    Consistent (q.persistRecord id) ∧ Forward p (q.persistRecord id) := by
  have hrid : r.id = id := hp.keyed id r hr
  have hreplaces : Replaces p id { r with status := status } (q.persistRecord id) := by
    refine replaces_persist hrid (fun other => ?_) fun other _ => by rw [hstore]
    rw [hregistry, getRecord_putRecord]
  refine ⟨hreplaces.consistent hp hrid fun hconf => absurd hconf hnew, ?_⟩
  refine hreplaces.forward fun r₀ hr₀ hconf => ?_
  rw [Option.some.inj (hr₀.symm.trans hr)] at hconf
  exact absurd hconf hold

theorem dispatchFileAppealTx_spec {sender : Address} {value gas : Nat} {height : UInt64}
    (hp : Consistent p) (h : dispatchFileAppealTx p id sender value height = .ok (gas, p')) :
    Consistent p' ∧ Forward p p' := by
  unfold dispatchFileAppealTx at h
  split at h
  · cases h
  obtain ⟨registry, happeal, h⟩ := bind_eq_ok.mp h
  cases h
  unfold fileAppealForTx at happeal
  split at happeal
  · cases happeal
  rename_i r hr
  split_ifs at happeal
  unfold fileAppeal at happeal
  rw [hr] at happeal
  dsimp only at happeal
  split_ifs at happeal with hpending hdeadline
  cases happeal
  rw [not_not] at hpending
  exact restatus_spec hp hr (by rw [hpending]; simp) (by simp) rfl rfl

theorem records_deleteBonds (store : EvidenceStore) (id : H256)
    (bonds : List (Address × BondEntry)) :
    (bonds.foldl (fun store b => store.deleteBond id b.1) store).records = store.records := by
  induction bonds generalizing store with
  | nil => rfl
  | cons b rest ih => exact ih _

theorem overturnAndRefund_spec {result : AppliedOverturn} (hp : Consistent p)
    (h : p.overturnAndRefund id = .ok (result, p')) : Consistent p' ∧ Forward p p' := by
  unfold overturnAndRefund at h
  split at h
  · cases h
  rename_i r hr
  split at h
  · cases h
  rename_i hstatus
  rw [not_not] at hstatus
  obtain ⟨⟨amount, registry⟩, hoverturn, h⟩ := bind_eq_ok.mp h
  unfold overturnSlash at hoverturn
  rw [hr] at hoverturn
  dsimp only at hoverturn
  rw [if_neg (not_not.mpr hstatus)] at hoverturn
  cases hoverturn
  cases h
  let q : SlashingPipeline := { p with
    registry := p.registry.putRecord id { r with status := .overturned }
    validators := p.refundedValidators r (bondTotal .appeal (p.store.listBondsForRecord id)) }
  obtain ⟨hcons, hforward⟩ : Consistent (q.persistRecord id) ∧ Forward p (q.persistRecord id) :=
    restatus_spec hp hr (by rw [hstatus]; simp) (by simp) rfl rfl
  refine ⟨⟨fun other => ?_, hcons.keyed, hcons.burnt⟩, hforward⟩
  rw [records_deleteBonds]
  exact hcons.sync other

/-! ## Ticks -/

def markedRecord (r : SlashEvidenceRecord) (jailed : Bool) : SlashEvidenceRecord :=
  { r with burnApplied := true, jailedBySlash := if jailed then true else r.jailedBySlash }

theorem getRecord_modifyRecord (f : SlashEvidenceRecord → SlashEvidenceRecord)
    (hr : reg.getRecord id = some r) (other : H256) : (reg.modifyRecord id f).getRecord other =
      if other = id then some (f r) else reg.getRecord other := by
  unfold modifyRecord
  rw [hr]
  exact getRecord_putRecord reg id other (f r)

theorem getRecord_marked (hr : p.registry.getRecord id = some r) (jailed : Bool) (other : H256) :
    (if jailed then (p.registry.setBurnApplied id).setJailedBySlash id true
      else p.registry.setBurnApplied id).getRecord other =
      if other = id then some (markedRecord r jailed) else p.registry.getRecord other := by
  have hburn := getRecord_modifyRecord (fun r => { r with burnApplied := true }) hr
  cases jailed with
  | false => exact hburn other
  | true =>
    have hget := (hburn id).trans (if_pos rfl)
    refine (getRecord_modifyRecord _ hget other).trans ?_
    rw [hburn other]
    split <;> rfl

theorem markApplied_replaces (hr : p.registry.getRecord id = some r) (hid : r.id = id)
    (jailed : Bool) : Replaces p id (markedRecord r jailed) (p.markApplied id jailed) :=
  replaces_persist hid (getRecord_marked hr jailed) fun _ _ => rfl

theorem burn_spec (hr₀ : p.registry.getRecord r.id = some r₀) (hid : r₀.id = r.id)
    (finalized : FinalizedSlash) :
    ∃ applied p' jailed, burn r finalized p = .ok applied p' ∧ applied.recordId = r.id ∧
      Replaces p r.id (markedRecord r₀ jailed) p' := by
  let burnt := applySlashBurnV2 p.validators r.offender finalized.slashWei finalized.splits
    (p.forceTombstone r)
  have hmarked := markApplied_replaces (p := { p with validators := burnt.2 }) hr₀ hid
    (burnt.1.1 || burnt.1.2)
  exact ⟨appliedSlash r finalized burnt.1, _, _, rfl, rfl, hmarked.registry, hmarked.store⟩

def confirmedRecord (r : SlashEvidenceRecord) : SlashEvidenceRecord :=
  { r with
    status := .confirmed
    formatVersion := slashRecordFormatVersion
    burnApplied := false }

theorem Replaces.trans {r' : SlashEvidenceRecord} (h : Replaces p id r p')
    (h' : Replaces p' id r' p'') : Replaces p id r' p'' where
  registry other := by
    rw [h'.registry, h.registry]
    split <;> rfl
  store other := by
    rw [h'.store, h.store]
    split <;> rfl

theorem finalizeRecord_spec (block : UInt64) (r : SlashEvidenceRecord) (hp : Consistent p)
    (hr₀ : p.registry.getRecord r.id = some r₀) : finalizeRecord block r p = .ok [] p ∨
      ∃ applied p' jailed, finalizeRecord block r p = .ok [applied] p' ∧
        applied.recordId = r.id ∧ r₀.status = .pending ∧
        Replaces p r.id (markedRecord (confirmedRecord r₀) jailed) p' := by
  have hget : finalizeRecord block r p = _ := estate_bind_ok (estate_get p) _
  rw [hget]
  rw [finalizeSlash_eq]
  rw [hr₀]
  dsimp only
  by_cases hpending : r₀.status = .pending
  swap
  · rw [if_pos hpending]
    exact .inl rfl
  rw [if_neg (not_not.mpr hpending)]
  by_cases hopen : block ≤ r₀.appealDeadline
  · rw [if_pos hopen]
    exact .inl rfl
  rw [if_neg hopen]
  -- the record is confirmed and put on disk, then burnt and marked
  have hid : (confirmedRecord r₀).id = r.id := hp.keyed _ r₀ hr₀
  have hlookup := getRecord_putRecord p.registry r.id r.id (confirmedRecord r₀)
  rw [if_pos rfl] at hlookup
  have hstored : Replaces p r.id (confirmedRecord r₀)
      ({ p with registry := p.registry.putRecord r.id (confirmedRecord r₀) }.persistRecord r.id) :=
    replaces_persist hid (fun other => getRecord_putRecord p.registry r.id other _) fun _ _ => rfl
  have hconfirmed := (hstored.registry r.id).trans (if_pos rfl)
  obtain ⟨applied, p', jailed, hburn, happlied, hmarked⟩ :=
    burn_spec (r := { r with evidenceType := r₀.evidenceType }) hconfirmed hid (recomputeSplits r₀)
  refine .inr ⟨applied, p', jailed, ?_, happlied, hpending, hstored.trans hmarked⟩
  · unfold confirmedRecord at hlookup
    dsimp only
    rw [hlookup]
    have hset (q : SlashingPipeline) : (set q : PipelineM PUnit) p = .ok () q := rfl
    exact (estate_bind_ok (hset _) _).trans (estate_bind_ok hburn _)

/-- What a tick does: some pending records are confirmed, each is burnt once. -/
structure Ticked (p : SlashingPipeline) (applied : List AppliedSlash) (p' : SlashingPipeline) :
    Prop where
  consistent : Consistent p'
  forward : Forward p p'
  pending : ∀ a ∈ applied, ∃ r, p.registry.getRecord a.recordId = some r ∧ r.status = .pending
  confirmed : ∀ a ∈ applied,
    ∃ r, p'.registry.getRecord a.recordId = some r ∧ r.status = .confirmed
  nodup : (applied.map (·.recordId)).Nodup

theorem Ticked.nil (hp : Consistent p) : Ticked p [] p where
  consistent := hp
  forward := .refl p
  pending _ h := absurd h not_mem_nil
  confirmed _ h := absurd h not_mem_nil
  nodup := nodup_nil

theorem Ticked.cons {r₁ : SlashEvidenceRecord} {first : AppliedSlash} {others : List AppliedSlash}
    (hpending : r₀.status = .pending) (hr₀ : p.registry.getRecord first.recordId = some r₀)
    (hr₁ : r₁.status = .confirmed) (hstep : Replaces p first.recordId r₁ q)
    (hrest : Ticked q others p') : Ticked p (first :: others) p' := by
  have hfirst : q.registry.getRecord first.recordId = some r₁ :=
    (hstep.registry _).trans (if_pos rfl)
  -- what is burnt later was pending after the first one, so it is another record
  have hother : ∀ a ∈ others, a.recordId ≠ first.recordId := by
    intro a ha heq
    obtain ⟨r, hr, hrpending⟩ := hrest.pending a ha
    rw [heq, hfirst] at hr
    rw [← Option.some.inj hr, hr₁] at hrpending
    cases hrpending
  have hforward : Forward p q :=
    hstep.forward fun _ _ _ => hr₁
  refine ⟨hrest.consistent, hforward.trans hrest.forward, ?_, ?_, ?_⟩
  · intro a ha
    rcases mem_cons.mp ha with rfl | ha
    · exact ⟨r₀, hr₀, hpending⟩
    obtain ⟨r, hr, hrpending⟩ := hrest.pending a ha
    rw [hstep.registry, if_neg (hother a ha)] at hr
    exact ⟨r, hr, hrpending⟩
  · intro a ha
    rcases mem_cons.mp ha with rfl | ha
    · obtain ⟨r, hr, hconf⟩ := hrest.forward _ r₁ hfirst
      exact ⟨r, hr, hconf hr₁⟩
    · exact hrest.confirmed a ha
  refine nodup_cons.mpr ⟨fun hmem => ?_, hrest.nodup⟩
  obtain ⟨a, ha, heq⟩ := mem_map.mp hmem
  exact hother a ha heq

theorem forRecords_finalize (block : UInt64) (records : List SlashEvidenceRecord)
    (hp : Consistent p) (hin : ∀ r ∈ records, ∃ r₀, p.registry.getRecord r.id = some r₀) :
    ∃ applied p', forRecords (finalizeRecord block) records p = .ok applied p' ∧
      Ticked p applied p' := by
  induction records generalizing p with
  | nil => exact ⟨[], p, rfl, .nil hp⟩
  | cons r rest ih =>
    obtain ⟨r₀, hr₀⟩ := hin r mem_cons_self
    rcases finalizeRecord_spec block r hp hr₀ with
      hsame | ⟨first, q, jailed, hfinal, hfirst, hpending, hstep⟩
    · obtain ⟨applied, p', hrun, hticked⟩ := ih hp fun r' hr' => hin r' (mem_cons_of_mem r hr')
      exact ⟨applied, p', (estate_bind_ok hsame _).trans (estate_bind_ok hrun _), hticked⟩
    rw [← hfirst] at hstep hr₀
    have hq : Consistent q :=
      hstep.consistent hp (hp.keyed _ r₀ hr₀) fun _ => rfl
    have hinq : ∀ r' ∈ rest, ∃ r₀, q.registry.getRecord r'.id = some r₀ := by
      intro r' hr'
      obtain ⟨r₁, hr₁⟩ := hin r' (mem_cons_of_mem r hr')
      rw [hstep.registry]
      split
      · exact ⟨_, rfl⟩
      · exact ⟨r₁, hr₁⟩
    obtain ⟨others, p', hrun, hticked⟩ := ih hq hinq
    exact ⟨first :: others, p', (estate_bind_ok hfinal _).trans (estate_bind_ok hrun _),
      .cons hpending hr₀ rfl hstep hticked⟩

theorem mem_loadAllRecords {store : EvidenceStore} (h : r ∈ store.loadAllRecords) :
    ∃ id, store.records.lookup id = some r := by
  obtain ⟨e, he, rfl⟩ := mem_map.mp h
  exact ⟨e.1, AList.mem_lookup_iff.mpr ((mem_insertionSort _).mp he)⟩

theorem Consistent.getRecord_of_mem (hp : Consistent p) (h : r ∈ p.store.loadAllRecords) :
    p.registry.getRecord r.id = some r := by
  obtain ⟨id, hid⟩ := mem_loadAllRecords h
  rw [hp.sync] at hid
  rw [hp.keyed id r hid]
  exact hid

theorem Consistent.loadRecordsWithUnappliedBurn_eq_nil (hp : Consistent p) :
    p.store.loadRecordsWithUnappliedBurn = [] := by
  refine filter_eq_nil_iff.mpr fun r hr hcond => ?_
  obtain ⟨-, hconfirmed, hunburnt⟩ := of_decide_eq_true hcond
  rw [hp.burnt _ r (hp.getRecord_of_mem hr) hconfirmed] at hunburnt
  cases hunburnt

theorem tickFinalize_spec (block : UInt64) (hp : Consistent p) :
    ∃ applied p', tickFinalize block p = .ok applied p' ∧ Ticked p applied p' := by
  obtain ⟨applied, p', hrun, hticked⟩ := forRecords_finalize block
    (p.store.loadRecordsReadyToFinalize block) hp
    fun r hr => ⟨r, hp.getRecord_of_mem (mem_of_mem_filter hr)⟩
  refine ⟨applied, p', ?_, hticked⟩
  have hreplay : forRecords (replayBurn block) p.store.loadRecordsWithUnappliedBurn p =
      .ok [] p := by
    rw [hp.loadRecordsWithUnappliedBurn_eq_nil]
    rfl
  refine (estate_bind_ok (estate_get p) _).trans ((estate_bind_ok hreplay _).trans ?_)
  exact (estate_bind_ok (estate_get p) _).trans (estate_bind_ok hrun _)

/-! ## Restarts -/

theorem records_rehydrate (reg : SlashingRegistryV2) (records : List SlashEvidenceRecord) :
    (records.foldl insertRehydratedRecord reg).records =
      insertAll reg.records (records.map fun r => ⟨r.id, r⟩) := by
  induction records generalizing reg with
  | nil => rfl
  | cons r rest ih =>
    refine (ih _).trans (congrArg (insertAll · _) ?_)
    unfold insertRehydratedRecord
    dsimp only
    split <;> rfl

theorem getRecord_rehydrate_of_keyed
    (hkeyed : ∀ id r, p.store.records.lookup id = some r → r.id = id)
    (totalValidators : UInt64) (id : H256) :
    ({ p with registry := .new totalValidators }.rehydrateFromDisk).registry.getRecord id =
      p.store.records.lookup id := by
  have hsorted : (p.store.loadAllRecords.map fun r => (⟨r.id, r⟩ : (_ : H256) × _)) =
      p.store.records.entries.insertionSort fun a b => a.1 ≤ b.1 := by
    unfold EvidenceStore.loadAllRecords
    rw [map_map]
    refine (map_congr_left fun e he => ?_).trans (map_id _)
    have hentry : p.store.records.lookup e.1 = some e.2 :=
      AList.mem_lookup_iff.mpr ((mem_insertionSort _).mp he)
    show (⟨e.2.id, e.2⟩ : (_ : H256) × SlashEvidenceRecord) = e
    rw [hkeyed _ _ hentry]
  have hperm := perm_insertionSort (fun a b => a.1 ≤ b.1) p.store.records.entries
  have hnodup := (perm_nodupKeys hperm).mpr p.store.records.nodupKeys
  have hrecords := records_rehydrate (.new totalValidators) p.store.loadAllRecords
  rw [hsorted] at hrecords
  refine (congrArg (AList.lookup id) hrecords).trans ?_
  rw [lookup_insertAll hnodup, perm_dlookup id hnodup hperm]
  exact Option.or_none

theorem getRecord_rehydrate (hp : Consistent p) (totalValidators : UInt64) (id : H256) :
    ({ p with registry := .new totalValidators }.rehydrateFromDisk).registry.getRecord id =
      p.registry.getRecord id := by
  have hkeyed : ∀ id r, p.store.records.lookup id = some r → r.id = id :=
    fun id r hr => hp.keyed id r ((hp.sync id).symm.trans hr)
  exact (getRecord_rehydrate_of_keyed hkeyed totalValidators id).trans (hp.sync id)

end SlashingPipeline

end ZbxChain
