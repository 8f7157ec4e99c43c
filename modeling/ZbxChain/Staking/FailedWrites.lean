import ZbxChain.Staking.PipelineRecords
import ZbxChain.Staking.StatusChanges

/-!
# Ticks with failing writes

`tick_finalize` once more, now with stores that refuse a write and processes that stop. Each write
and each point at which a process may stop takes the next `Fate`.
-/

namespace ZbxChain

open Triple List Option SlashingPipeline

namespace SlashingPipeline

/-! ## The process -/

inductive Fate
  | fine
  | refused
  | stopped

inductive Halt
  | staking (e : StakingError)
  | unconfirmed (id : H256)
  | unmarked (id : H256)
  | stopped

structure Burn where
  record : SlashEvidenceRecord
  finalized : FinalizedSlash
  force : Bool

/-- `burns` has the calls of `apply_slash_burn_v2` so far. -/
structure Process where
  pipeline : SlashingPipeline
  fates : List Fate
  burns : List Burn

abbrev ProcessM := EStateM Halt Process

def nextFate : ProcessM Fate := do
  let s ← get
  set { s with fates := s.fates.tail }
  return s.fates.headD .fine

def pause : ProcessM PUnit := do
  match ← nextFate with
  | .stopped => throw .stopped
  | _ => return ⟨⟩

/-- `put_record` of what is in memory. -/
def writeRecord (id : H256) (refused : ProcessM PUnit) : ProcessM PUnit := do
  match ← nextFate with
  | .fine => modify fun s => { s with pipeline := s.pipeline.persistRecord id }
  | .refused => refused
  | .stopped => throw .stopped

def markInMemory (p : SlashingPipeline) (id : H256) (jailed : Bool) : SlashingPipeline :=
  let registry := p.registry.setBurnApplied id
  { p with registry := if jailed then registry.setJailedBySlash id true else registry }

def Burn.apply (b : Burn) (vs : ValidatorSet) : (Bool × Bool) × ValidatorSet :=
  applySlashBurnV2 vs b.record.offender b.finalized.slashWei b.finalized.splits b.force

def burnAll (vs : ValidatorSet) (burns : List Burn) : ValidatorSet :=
  burns.foldl (fun vs b => (b.apply vs).2) vs

def burnAndMark (b : Burn) : ProcessM AppliedSlash := do
  pause
  let s ← get
  let (flags, validators) := b.apply s.pipeline.validators
  set { s with pipeline := { s.pipeline with validators := validators }, burns := s.burns ++ [b] }
  pause
  modify fun s =>
    { s with pipeline := s.pipeline.markInMemory b.record.id (flags.1 || flags.2) }
  writeRecord b.record.id (throw (.unmarked b.record.id))
  return appliedSlash b.record b.finalized flags

def replayRecord (currentBlock : UInt64) (r : SlashEvidenceRecord) :
    ProcessM (List AppliedSlash) := do
  if currentBlock ≤ r.appealDeadline then return []
  else
    let s ← get
    if s.pipeline.alreadySlashed r then
      set { s with pipeline := s.pipeline.markInMemory r.id false }
      -- the result of this write is dropped
      writeRecord r.id (return ⟨⟩)
      return []
    else
      let applied ← burnAndMark ⟨r, recomputeSplits r, s.pipeline.forceTombstone r⟩
      return [applied]

def confirmRecord (currentBlock : UInt64) (r : SlashEvidenceRecord) :
    ProcessM (List AppliedSlash) := do
  let s ← get
  match s.pipeline.registry.finalizeSlash r.id currentBlock with
  | .error e => throw (.staking e)
  | .ok (none, _) => return []
  | .ok (some finalized, registry) =>
    set { s with pipeline := { s.pipeline with registry := registry } }
    match registry.getRecord r.id with
    | none => throw (.staking (.persistence "post-finalize record vanished from registry"))
    | some updated =>
      writeRecord r.id (throw (.unconfirmed r.id))
      let s ← get
      let force := s.pipeline.forceTombstone { updated with offender := r.offender }
      let applied ← burnAndMark ⟨r, finalized, force⟩
      return [applied]

def eachRecord (f : SlashEvidenceRecord → ProcessM (List AppliedSlash)) :
    List SlashEvidenceRecord → ProcessM (List AppliedSlash)
  | [] => return []
  | r :: rest => do
    let first ← f r
    let others ← eachRecord f rest
    return first ++ others

def tick (currentBlock : UInt64) : ProcessM (List AppliedSlash) := do
  let replayed ← eachRecord (replayRecord currentBlock)
    (← get).pipeline.store.loadRecordsWithUnappliedBurn
  let finalized ← eachRecord (confirmRecord currentBlock)
    ((← get).pipeline.store.loadRecordsReadyToFinalize currentBlock)
  return replayed ++ finalized

/-! ## Without failures -/

/-- Where nothing fails, `x` does what `y` does. -/
def Agrees {α : Type} (x : ProcessM α) (y : PipelineM α) : Prop :=
  ∀ p burns a p', y p = .ok a p' → ∃ burns', x ⟨p, [], burns⟩ = .ok a ⟨p', [], burns'⟩

theorem Agrees.bind {α β : Type} {x : ProcessM α} {y : PipelineM α} {f : α → ProcessM β}
    {g : α → PipelineM β} (h : Agrees x y) (hf : ∀ a, Agrees (f a) (g a)) :
    Agrees (x >>= f) (y >>= g) := by
  intro p burns b p' hrun
  cases hy : y p with
  | error e q =>
    rw [estate_bind_error hy] at hrun
    cases hrun
  | ok a q =>
    rw [estate_bind_ok hy] at hrun
    obtain ⟨burns', hx⟩ := h p burns a q hy
    rw [estate_bind_ok hx]
    exact hf a q burns' b p' hrun

theorem agrees_pure {α : Type} (a : α) : Agrees (pure a) (pure a) := by
  rintro p burns _ _ ⟨⟩
  exact ⟨burns, rfl⟩

theorem agrees_replay (block : UInt64) (r : SlashEvidenceRecord) :
    Agrees (replayRecord block r) (replayBurn block r) := by
  unfold replayRecord replayBurn
  split
  · exact agrees_pure []
  intro p burns a p' hrun
  rw [estate_bind_ok (estate_get _)] at hrun ⊢
  dsimp only at hrun ⊢
  split at hrun <;> cases hrun
  · rename_i hslashed
    rw [if_pos hslashed]
    exact ⟨_, rfl⟩
  · rename_i hslashed
    rw [if_neg hslashed]
    exact ⟨_, rfl⟩

theorem agrees_confirm (block : UInt64) (r : SlashEvidenceRecord) :
    Agrees (confirmRecord block r) (finalizeRecord block r) := by
  intro p burns a p' hrun
  unfold finalizeRecord at hrun
  unfold confirmRecord
  rw [estate_bind_ok (estate_get _)] at hrun ⊢
  dsimp only at hrun ⊢
  cases hfinal : p.registry.finalizeSlash r.id block with
  | error e =>
    rw [hfinal] at hrun
    cases hrun
  | ok result =>
    obtain ⟨_ | finalized, registry⟩ := result
    · rw [hfinal] at hrun
      cases hrun
      exact ⟨burns, rfl⟩
    rw [hfinal] at hrun
    dsimp only at hrun ⊢
    cases hupdated : registry.getRecord r.id with
    | none =>
      rw [hupdated] at hrun
      cases hrun
    | some updated =>
      rw [hupdated] at hrun
      cases hrun
      exact ⟨_, rfl⟩

theorem agrees_each {f : SlashEvidenceRecord → ProcessM (List AppliedSlash)}
    {g : SlashEvidenceRecord → PipelineM (List AppliedSlash)} (h : ∀ r, Agrees (f r) (g r))
    (records : List SlashEvidenceRecord) : Agrees (eachRecord f records) (forRecords g records) := by
  induction records with
  | nil => exact agrees_pure []
  | cons r rest ih => exact (h r).bind fun first => ih.bind fun others => agrees_pure _

theorem agrees_tick (block : UInt64) : Agrees (tick block) (tickFinalize block) := by
  intro p burns a p' hrun
  unfold tickFinalize at hrun
  unfold tick
  rw [estate_bind_ok (estate_get _)] at hrun ⊢
  refine ((agrees_each (agrees_replay block) _).bind fun replayed => ?_) p burns a p' hrun
  intro q burns b q' hrest
  rw [estate_bind_ok (estate_get _)] at hrest ⊢
  exact ((agrees_each (agrees_confirm block) _).bind fun finalized => agrees_pure _) q burns b q'
    hrest

/-- A new process reads its registry from disk; the validators stay. -/
def restarted (p : SlashingPipeline) (totalValidators : UInt64) : SlashingPipeline :=
  { p with registry := .new totalValidators }.rehydrateFromDisk

inductive Event
  | tick (block : UInt64) (fates : List Fate)
  | restart (totalValidators : UInt64)

namespace Process

def step (s : Process) : Event → Process
  | .tick block fates => finalState (tick block { s with fates := fates })
  | .restart totalValidators => { s with pipeline := s.pipeline.restarted totalValidators }

def boot (records : List SlashEvidenceRecord) (totalValidators : UInt64) (vs : ValidatorSet) :
    Process where
  pipeline := restarted ⟨records.foldl .putRecord .new, .new totalValidators, vs⟩ totalValidators
  fates := []
  burns := []

def reached (records : List SlashEvidenceRecord) (totalValidators : UInt64) (vs : ValidatorSet)
    (events : List Event) : Process :=
  events.foldl step (boot records totalValidators vs)

end Process

/-! ## The invariant -/

def Settled (p : SlashingPipeline) (id : H256) : Prop :=
  ∀ r, p.store.records.lookup id = some r → r.status ≠ .pending

/-- Records are kept under their names, and `who` has the offender of each. -/
structure Files (who : H256 → Option Address) (records : H256 → Option SlashEvidenceRecord) :
    Prop where
  offender : ∀ id, (records id).map (·.offender) = who id
  keyed : ∀ id r, records id = some r → r.id = id

/-- `vs` are the validators before the burns, and `closed` has records that were settled
earlier. -/
structure Inv (vs : ValidatorSet) (who : H256 → Option Address) (closed : Set H256)
    (p : SlashingPipeline) (burns : List Burn) : Prop where
  memory : Files who p.registry.getRecord
  disk : Files who p.store.records.lookup
  pending : ∀ id r, p.registry.getRecord id = some r → r.status = .pending →
    p.store.records.lookup id = some r
  closed : ∀ id ∈ closed, p.Settled id
  burnt : ∀ b ∈ burns, p.Settled b.record.id ∧
    p.validators.statusOf b.record.offender ≠ some .active ∧
    who b.record.id = some b.record.offender
  once : (burns.map (·.record.id)).Nodup
  ledger : p.validators = burnAll vs burns
  finalized : ∀ b ∈ burns, ∃ r, b.finalized = recomputeSplits r

def Lost (block : UInt64) (id : H256) (p : SlashingPipeline) : Prop :=
  (∃ r, p.registry.getRecord id = some r ∧ r.status ≠ .pending) ∧
    ∃ r, p.store.records.lookup id = some r ∧ r.status = .pending ∧ r.appealDeadline < block

section

variable {vs : ValidatorSet} {who : H256 → Option Address} {closed : Set H256}
  {p p' : SlashingPipeline} {burns : List Burn} {id : H256} {offender : Address}
  {r : SlashEvidenceRecord}

theorem Files.exists {records : H256 → Option SlashEvidenceRecord} (h : Files who records)
    (hwho : who id = some offender) : ∃ r, records id = some r ∧ r.offender = offender :=
  map_eq_some_iff.mp ((h.offender id).trans hwho)

theorem Files.who_eq {records : H256 → Option SlashEvidenceRecord} (h : Files who records)
    (hr : records id = some r) : who id = some r.offender := by
  rw [← h.offender id, hr]
  rfl

theorem Files.update {records records' : H256 → Option SlashEvidenceRecord}
    (h : Files who records) (hr : r.id = id ∧ who id = some r.offender)
    (hupdate : ∀ other, records' other = if other = id then some r else records other) :
    Files who records' := by
  refine ⟨fun other => ?_, fun other r' hr' => ?_⟩
  · rw [hupdate]
    split
    · rename_i heq
      rw [heq, hr.2]
      rfl
    · exact h.offender other
  rw [hupdate] at hr'
  split at hr'
  · rename_i heq
    rw [← some.inj hr', hr.1, heq]
  · exact h.keyed other r' hr'

theorem Inv.memory_ne_pending (h : Inv vs who closed p burns) (hsettled : p.Settled id)
    (hr : p.registry.getRecord id = some r) : r.status ≠ .pending :=
  fun hpending => hsettled r (h.pending id r hr hpending) hpending

theorem Inv.replace (r r' : SlashEvidenceRecord) (h : Inv vs who closed p burns)
    (hregistry : ∀ other, p'.registry.getRecord other =
      if other = id then some r else p.registry.getRecord other)
    (hstore : ∀ other, p'.store.records.lookup other =
      if other = id then some r' else p.store.records.lookup other)
    (hvalidators : p'.validators = p.validators)
    (hr : r.id = id ∧ who id = some r.offender) (hr' : r'.id = id ∧ who id = some r'.offender)
    (hpending : r.status = .pending → r' = r) (hsettled : p.Settled id → r'.status ≠ .pending) :
    Inv vs who closed p' burns := by
  have hstays : ∀ other, p.Settled other → p'.Settled other := by
    intro other hother r₀ hr₀
    rw [hstore] at hr₀
    split at hr₀
    · rename_i heq
      rw [← some.inj hr₀]
      exact hsettled (heq ▸ hother)
    · exact hother r₀ hr₀
  refine ⟨h.memory.update hr hregistry, h.disk.update hr' hstore, fun other r₀ hr₀ hpend => ?_,
    fun other hother => hstays other (h.closed other hother), fun b hb => ?_, h.once,
    hvalidators.trans h.ledger, h.finalized⟩
  · rw [hregistry] at hr₀
    rw [hstore]
    split at hr₀
    · rename_i heq
      cases hr₀
      rw [if_pos heq, hpending hpend]
    rename_i hne
    rw [if_neg hne]
    exact h.pending other r₀ hr₀ hpend
  · obtain ⟨hburnt, hidle, hwho⟩ := h.burnt b hb
    rw [hvalidators]
    exact ⟨hstays _ hburnt, hidle, hwho⟩

theorem Inv.persist (h : Inv vs who closed p burns) (hr : p.registry.getRecord id = some r)
    (hne : r.status ≠ .pending) :
    Inv vs who closed (p.persistRecord id) burns ∧ (p.persistRecord id).Settled id := by
  have hrid := h.memory.keyed id r hr
  have hnamed := And.intro hrid (h.memory.who_eq hr)
  have hwritten : Replaces p id r (p.persistRecord id) := by
    refine replaces_persist hrid (fun other => ?_) fun _ _ => rfl
    split
    · rename_i heq
      rw [heq, hr]
    · rfl
  refine ⟨h.replace r r hwritten.registry hwritten.store (validators_persistRecord p id) hnamed hnamed
    (fun _ => rfl) fun _ => hne, fun r₀ hr₀ => ?_⟩
  rw [hwritten.store, if_pos rfl] at hr₀
  rw [← some.inj hr₀]
  exact hne

theorem Inv.remember (h : Inv vs who closed p burns) (r' : SlashEvidenceRecord)
    (hr : p.registry.getRecord id = some r) (hid : r'.id = r.id)
    (hoffender : r'.offender = r.offender) (hne : r'.status ≠ .pending)
    {registry : SlashingRegistryV2} (hregistry : ∀ other, registry.getRecord other =
      if other = id then some r' else p.registry.getRecord other) :
    Inv vs who closed { p with registry := registry } burns := by
  have hwho := h.memory.who_eq hr
  obtain ⟨r₁, hr₁, -⟩ := h.disk.exists hwho
  refine h.replace r' r₁ hregistry (fun other => ?_) rfl
    ⟨hid.trans (h.memory.keyed id r hr), by rw [hwho, hoffender]⟩
    ⟨h.disk.keyed id r₁ hr₁, h.disk.who_eq hr₁⟩ (fun hpend => absurd hpend hne)
    fun hsettled => hsettled r₁ hr₁
  split
  · rename_i heq
    rw [heq]
    exact hr₁
  · rfl

theorem Burn.statusOf_apply (b : Burn) (vs : ValidatorSet) (addr : Address)
    (h : (b.apply vs).2.statusOf addr = some .active) :
    addr ≠ b.record.offender ∧ vs.statusOf addr = some .active := by
  unfold Burn.apply at h
  rw [ValidatorSet.statusOf_applySlashBurnV2] at h
  split at h
  · obtain ⟨status, -, hstatus⟩ := map_eq_some_iff.mp h
    exact absurd hstatus (by cases status <;> cases b.force <;> simp [ValidatorStatus.slashed])
  · rename_i hne
    exact ⟨hne, h⟩

theorem Inv.burn (h : Inv vs who closed p burns) {b : Burn}
    (hnew : b.record.id ∉ burns.map (·.record.id)) (hsettled : p.Settled b.record.id)
    (hwho : who b.record.id = some b.record.offender)
    (hfinalized : ∃ r, b.finalized = recomputeSplits r) :
    Inv vs who closed { p with validators := (b.apply p.validators).2 } (burns ++ [b]) := by
  refine { h with burnt := fun b' hb' => ?_, once := ?_, ledger := ?_, finalized := ?_ }
  · rcases mem_append.mp hb' with hold | hb'
    · obtain ⟨hs, hidle, hw⟩ := h.burnt b' hold
      exact ⟨hs, fun hactive => hidle (b.statusOf_apply _ _ hactive).2, hw⟩
    · obtain rfl := mem_singleton.mp hb'
      exact ⟨hsettled, fun hactive => (b'.statusOf_apply _ _ hactive).1 rfl, hwho⟩
  · rw [map_append]
    exact nodup_append'.mpr ⟨h.once, nodup_singleton _,
      disjoint_singleton.mpr hnew⟩
  · rw [h.ledger, burnAll, burnAll, foldl_append]
    rfl
  · exact forall_mem_append.mpr ⟨h.finalized, forall_mem_singleton.mpr hfinalized⟩

end

/-! ## Ticks -/

/-- The state meets `A`; a process that is not disturbed has only good fates. -/
def Steady (clean : Prop) (A : SlashingPipeline → List Burn → Prop) (s : Process) : Prop :=
  A s.pipeline s.burns ∧ (clean → s.fates = [])

/-- Only a process that was disturbed fails, and what it loses is lost on disk only. -/
def Fails (vs : ValidatorSet) (who : H256 → Option Address) (closed : Set H256) (block : UInt64)
    (clean : Prop) (e : Halt) (s : Process) : Prop :=
  ¬ clean ∧ Inv vs who closed s.pipeline s.burns ∧
    ∀ id, e = .unconfirmed id → Lost block id s.pipeline

abbrev Safe {α : Type} (vs : ValidatorSet) (who : H256 → Option Address) (closed : Set H256)
    (block : UInt64) (clean : Prop) (A : SlashingPipeline → List Burn → Prop) (x : ProcessM α)
    (B : SlashingPipeline → List Burn → Prop) : Prop :=
  Triple (Steady clean A) x (fun _ => Steady clean B) (Fails vs who closed block clean)

section

variable {vs : ValidatorSet} {who : H256 → Option Address} {closed : Set H256}
  {block : UInt64} {clean : Prop} {A B : SlashingPipeline → List Burn → Prop}

theorem nextFate_spec {E : Halt → Process → Prop} : Triple (Steady clean A) nextFate
    (fun fate s => Steady clean A s ∧ (clean → fate = .fine)) E := by
  rintro s ⟨hA, hfates⟩
  refine ⟨⟨hA, fun hclean => ?_⟩, fun hclean => ?_⟩
  all_goals
    rw [hfates hclean]
    rfl

theorem pause_spec (hA : ∀ p burns, A p burns → Inv vs who closed p burns) :
    Safe vs who closed block clean A pause A := by
  refine bind nextFate_spec fun fate => ?_
  cases fate with
  | fine | refused => exact .pure fun s hs => hs.1
  | stopped =>
    exact .throw fun s hs => ⟨fun h => (nomatch hs.2 h), hA _ _ hs.1.1, fun _ h => nomatch h⟩

variable {id : H256} {burns : List Burn} {refused : ProcessM PUnit} {r : SlashEvidenceRecord}
  {p : SlashingPipeline}

theorem writeRecord_spec (hA : ∀ p burns, A p burns → Inv vs who closed p burns)
    (hwritten : ∀ p burns, A p burns → B (p.persistRecord id) burns)
    (hrefused : Triple (fun s => ¬ clean ∧ A s.pipeline s.burns) refused
      (fun _ => Steady clean B) (Fails vs who closed block clean)) :
    Safe vs who closed block clean A (writeRecord id refused) B := by
  refine bind nextFate_spec fun fate => ?_
  cases fate with
  | fine => exact .modify fun s hs => ⟨hwritten _ _ hs.1.1, hs.1.2⟩
  | refused => exact hrefused.pre fun s hs => ⟨fun h => (nomatch hs.2 h), hs.1.1⟩
  | stopped =>
    exact .throw fun s hs => ⟨fun h => (nomatch hs.2 h), hA _ _ hs.1.1, fun _ h => nomatch h⟩

def Marked (vs : ValidatorSet) (who : H256 → Option Address) (closed : Set H256) (id : H256)
    (p : SlashingPipeline) (burns : List Burn) : Prop :=
  Inv vs who closed p burns ∧ ∃ r, p.registry.getRecord id = some r ∧ r.status ≠ .pending

theorem mark_spec (h : Inv vs who closed p burns) (hwho : who r.id = some r.offender)
    (hsettled : p.Settled r.id) (jailed : Bool) :
    Marked vs who closed r.id (p.markInMemory r.id jailed) burns := by
  obtain ⟨r₀, hr₀, -⟩ := h.memory.exists hwho
  have hmark := getRecord_marked hr₀ jailed
  have hne := h.memory_ne_pending hsettled hr₀
  exact ⟨h.remember (markedRecord r₀ jailed) hr₀ rfl rfl hne hmark, _,
    (hmark r.id).trans (if_pos rfl), hne⟩

theorem writeMarked_spec
    (hrefused : Triple (fun s => ¬ clean ∧ Inv vs who closed s.pipeline s.burns) refused
      (fun _ => Steady clean (Inv vs who closed)) (Fails vs who closed block clean)) :
    Safe vs who closed block clean (Marked vs who closed id) (writeRecord id refused)
      (Inv vs who closed) := by
  refine writeRecord_spec (fun _ _ h => h.1) (fun p burns h => ?_) (hrefused.pre fun s hs =>
    ⟨hs.1, hs.2.1⟩)
  obtain ⟨hinv, r, hr, hne⟩ := h
  exact (hinv.persist hr hne).1

theorem burnAndMark_spec {b : Burn} (hwho : who b.record.id = some b.record.offender)
    (hfinalized : ∃ r, b.finalized = recomputeSplits r) :
    Safe vs who closed block clean (fun p burns => Inv vs who closed p burns ∧
      p.Settled b.record.id ∧ b.record.id ∉ burns.map (·.record.id)) (burnAndMark b)
      (Inv vs who closed) := by
  refine Triple.bind (pause_spec fun _ _ h => h.1) fun _ => Triple.get_bind fun s hs => ?_
  obtain ⟨⟨hinv, hsettled, hnew⟩, hfates⟩ := hs
  refine bind (Q := fun _ => Steady clean fun p burns =>
    Inv vs who closed p burns ∧ p.Settled b.record.id)
    (.set fun _ _ => ⟨⟨hinv.burn hnew hsettled hwho hfinalized, hsettled⟩, hfates⟩) fun _ => ?_
  refine bind (pause_spec fun _ _ h => h.1) fun _ => ?_
  refine bind (Q := fun _ => Steady clean (Marked vs who closed b.record.id))
    (.modify fun s hs => ⟨mark_spec hs.1.1 hwho hs.1.2 _, hs.2⟩) fun _ => ?_
  refine bind (writeMarked_spec (.throw fun s hs => ⟨hs.1, hs.2, fun _ h => nomatch h⟩))
    fun _ => ?_
  exact .pure fun s hs => hs

theorem Inv.not_burnt (h : Inv vs who closed p burns) (hwho : who r.id = some r.offender)
    (hguard : ¬ p.alreadySlashed r = true) : r.id ∉ burns.map (·.record.id) := by
  intro hmem
  obtain ⟨b, hb, hid⟩ := mem_map.mp hmem
  obtain ⟨-, hidle, hoffender⟩ := h.burnt b hb
  rw [hid, hwho] at hoffender
  rw [← some.inj hoffender] at hidle
  apply hguard
  unfold alreadySlashed
  cases hv : p.validators.get r.offender with
  | none => rfl
  | some v =>
    rw [ValidatorSet.statusOf_of_get hv] at hidle
    exact decide_eq_true (.inr (.inr fun hactive => hidle (congrArg some hactive)))

theorem replayRecord_spec (block : UInt64) (hwho : who r.id = some r.offender)
    (hclosed : r.id ∈ closed) :
    Safe vs who closed block clean (Inv vs who closed) (replayRecord block r)
      (Inv vs who closed) := by
  unfold replayRecord
  split
  · exact .pure fun s hs => hs
  refine Triple.get_bind fun s hs => ?_
  have hsettled := hs.1.closed r.id hclosed
  split
  · refine bind (Q := fun _ => Steady clean (Marked vs who closed r.id))
      (.set fun _ _ => ⟨mark_spec hs.1 hwho hsettled false, hs.2⟩) fun _ => ?_
    refine bind (writeMarked_spec (.pure fun s hs => ⟨hs.2, fun hclean => ?_⟩)) fun _ => ?_
    · exact absurd hclean hs.1
    · exact .pure fun s hs => hs
  rename_i hguard
  refine bind ((burnAndMark_spec hwho ⟨r, rfl⟩).pre ?_) fun _ => .pure fun s hs => hs
  rintro _ rfl
  exact ⟨⟨hs.1, hsettled, hs.1.not_burnt hwho hguard⟩, hs.2⟩

/-- The record is confirmed in memory, and still the pending one on disk. -/
def Confirming (vs : ValidatorSet) (who : H256 → Option Address) (closed : Set H256) (id : H256)
    (r₀ : SlashEvidenceRecord) (p : SlashingPipeline) (burns : List Burn) : Prop :=
  Inv vs who closed p burns ∧ id ∉ burns.map (·.record.id) ∧
    p.registry.getRecord id = some (confirmedRecord r₀) ∧ p.store.records.lookup id = some r₀

theorem confirmedRecord_not_pending (r : SlashEvidenceRecord) :
    (confirmedRecord r).status ≠ .pending := by
  simp [confirmedRecord]

theorem Inv.confirming (h : Inv vs who closed p burns) (hr : p.registry.getRecord id = some r)
    (hpending : r.status = .pending) : Confirming vs who closed id r
      { p with registry := p.registry.putRecord id (confirmedRecord r) } burns := by
  have hdisk := h.pending id r hr hpending
  have hput := getRecord_putRecord p.registry id
  refine ⟨h.remember (confirmedRecord r) hr rfl rfl (confirmedRecord_not_pending r)
    fun other => hput other _, ?_, (hput id _).trans (if_pos rfl), hdisk⟩
  intro hmem
  obtain ⟨b, hb, hid⟩ := mem_map.mp hmem
  exact (hid ▸ (h.burnt b hb).1 : p.Settled id) r hdisk hpending

theorem writeConfirmed_spec (hpending : r.status = .pending) (hclosed : ¬ block ≤ r.appealDeadline) :
    Safe vs who closed block clean (Confirming vs who closed id r)
      (writeRecord id (throw (.unconfirmed id)))
      (fun p burns => Inv vs who closed p burns ∧ p.Settled id ∧
        id ∉ burns.map (·.record.id)) := by
  have hconfirmed := confirmedRecord_not_pending r
  refine writeRecord_spec (fun _ _ h => h.1) ?_ ?_
  · rintro p burns ⟨hp, hfresh, hr, -⟩
    obtain ⟨hp', hsettled⟩ := hp.persist hr hconfirmed
    exact ⟨hp', hsettled, hfresh⟩
  refine .throw fun s hs => ⟨hs.1, hs.2.1, fun id' hid => ?_⟩
  cases hid
  exact ⟨⟨_, hs.2.2.2.1, hconfirmed⟩, r, hs.2.2.2.2, hpending, UInt64.not_le.mp hclosed⟩

theorem confirmRecord_spec (block : UInt64) (hwho : who r.id = some r.offender) :
    Safe vs who closed block clean (Inv vs who closed) (confirmRecord block r)
      (Inv vs who closed) := by
  refine Triple.get_bind fun s hs => ?_
  obtain ⟨r₀, hr₀, hoffender⟩ := hs.1.memory.exists hwho
  have hskip : Triple (· = s) (pure [] : ProcessM (List AppliedSlash))
      (fun _ => Steady clean (Inv vs who closed)) (Fails vs who closed block clean) :=
    .pure fun _ hs' => hs' ▸ hs
  rw [SlashingRegistryV2.finalizeSlash_eq]
  rw [hr₀]
  dsimp only
  by_cases hpending : r₀.status = .pending
  swap
  · rw [if_pos hpending]
    exact hskip
  rw [if_neg (not_not.mpr hpending)]
  by_cases hopen : block ≤ r₀.appealDeadline
  · rw [if_pos hopen]
    exact hskip
  rw [if_neg hopen]
  have hconfirming := hs.1.confirming hr₀ hpending
  have hlookup := hconfirming.2.2.1
  refine bind (Q := fun _ => Steady clean (Confirming vs who closed r.id r₀))
    (.set fun _ _ => ⟨hconfirming, hs.2⟩) fun _ => ?_
  dsimp only at hlookup
  unfold confirmedRecord at hlookup
  rw [hlookup]
  refine bind (writeConfirmed_spec hpending hopen) fun _ => Triple.get_bind fun s' hs' => ?_
  refine bind ((burnAndMark_spec hwho ⟨r₀, rfl⟩).pre ?_) fun _ => .pure fun s hs => hs
  rintro _ rfl
  exact hs'

theorem eachRecord_spec {f : SlashEvidenceRecord → ProcessM (List AppliedSlash)}
    {records : List SlashEvidenceRecord} (h : ∀ r ∈ records,
      Safe vs who closed block clean (Inv vs who closed) (f r) (Inv vs who closed)) :
    Safe vs who closed block clean (Inv vs who closed) (eachRecord f records)
      (Inv vs who closed) := by
  induction records with
  | nil => exact .pure fun s hs => hs
  | cons r rest ih =>
    refine bind (h r mem_cons_self) fun _ => ?_
    refine bind (ih fun r' hr' => h r' (mem_cons_of_mem r hr')) fun _ => ?_
    exact .pure fun s hs => hs

theorem Inv.of_mem (h : Inv vs who closed p burns) (hr : r ∈ p.store.loadAllRecords) :
    p.store.records.lookup r.id = some r ∧ who r.id = some r.offender := by
  obtain ⟨id, hid⟩ := mem_loadAllRecords hr
  obtain rfl := h.disk.keyed id r hid
  exact ⟨hid, h.disk.who_eq hid⟩

theorem tick_spec (block : UInt64) {s : Process} (hs : Steady clean (Inv vs who closed) s) :
    Triple (· = s) (tick block) (fun _ => Steady clean (Inv vs who {id | s.pipeline.Settled id}))
      (Fails vs who {id | s.pipeline.Settled id} block clean) := by
  have hinv : Inv vs who {id | s.pipeline.Settled id} s.pipeline s.burns :=
    { hs.1 with closed := fun _ h => h }
  refine Triple.get_bind fun t ht => ?_
  subst ht
  refine bind ((eachRecord_spec fun r hr => ?_).pre fun _ heq => heq.symm ▸ ⟨hinv, hs.2⟩)
    fun _ => ?_
  · obtain ⟨hmem, hcond⟩ := mem_filter.mp hr
    obtain ⟨hdisk, hwho⟩ := hinv.of_mem hmem
    refine replayRecord_spec block hwho fun r' hr' => ?_
    rw [← some.inj (hdisk.symm.trans hr'), (of_decide_eq_true hcond).2.1]
    simp
  refine Triple.get_bind fun s' hs' => ?_
  refine bind ((eachRecord_spec fun r hr => ?_).pre fun _ heq => heq ▸ hs') fun _ => ?_
  · exact confirmRecord_spec block (hs'.1.of_mem (mem_of_mem_filter hr)).2
  · exact .pure fun s hs => hs

end

/-! ## Runs -/

theorem Inv.restarted {vs : ValidatorSet} {who : H256 → Option Address} {p : SlashingPipeline}
    {burns : List Burn} (h : Inv vs who ∅ p burns) (totalValidators : UInt64) :
    Inv vs who ∅ (p.restarted totalValidators) burns := by
  have hmemory : (p.restarted totalValidators).registry.getRecord = p.store.records.lookup :=
    funext (getRecord_rehydrate_of_keyed h.disk.keyed totalValidators)
  refine { h with memory := ?_, pending := fun id r hr _ => ?_ }
  · rw [hmemory]
    exact h.disk
  · rwa [hmemory] at hr

namespace Process

variable {who : H256 → Option Address} {s : Process} {vs : ValidatorSet}

theorem inv_step (h : Inv vs who ∅ s.pipeline s.burns) (event : Event) :
    Inv vs who ∅ (s.step event).pipeline (s.step event).burns := by
  cases event with
  | tick block fates =>
    have hsteady : Steady False (Inv vs who ∅) { s with fates := fates } := ⟨h, False.elim⟩
    have hrun := tick_spec block hsteady _ rfl
    show Inv vs who ∅ (finalState (tick block _)).pipeline
      (finalState (tick block _)).burns
    cases hx : tick block { s with fates := fates } with
    | ok applied s' =>
      rw [hx] at hrun
      exact { hrun.1 with closed := fun _ h => h.elim }
    | error e s' =>
      rw [hx] at hrun
      exact { hrun.2.1 with closed := fun _ h => h.elim }
  | restart totalValidators => exact h.restarted totalValidators

theorem inv_steps (events : List Event) (h : Inv vs who ∅ s.pipeline s.burns) :
    Inv vs who ∅ (events.foldl step s).pipeline (events.foldl step s).burns := by
  induction events generalizing s with
  | nil => exact h
  | cons event rest ih => exact ih (inv_step h event)

variable (records : List SlashEvidenceRecord)

theorem keyed_putRecords {store : EvidenceStore}
    (h : ∀ id r, store.records.lookup id = some r → r.id = id) :
    ∀ id r, (records.foldl EvidenceStore.putRecord store).records.lookup id = some r →
      r.id = id := by
  induction records generalizing store with
  | nil => exact h
  | cons r rest ih =>
    refine ih fun id r' hr' => ?_
    rcases FiniteMap.lookup_insert_cases hr' with ⟨rfl, rfl⟩ | hold
    · rfl
    · exact h id r' hold

variable (totalValidators : UInt64)

theorem inv_boot (vs : ValidatorSet) :
    ∃ who, Inv vs who ∅ (boot records totalValidators vs).pipeline [] := by
  let p : SlashingPipeline := ⟨records.foldl .putRecord .new, .new totalValidators, vs⟩
  have hkeyed : ∀ id r, p.store.records.lookup id = some r → r.id = id :=
    keyed_putRecords records fun id r hr => nomatch hr
  have hdisk : Files (fun id => (p.store.records.lookup id).map (·.offender))
      p.store.records.lookup := ⟨fun _ => rfl, hkeyed⟩
  have hbefore : Inv vs _ ∅ { p with registry := ⟨p.store.records, ∅, ∅, totalValidators⟩ } [] :=
    ⟨hdisk, hdisk, fun _ _ hr _ => hr, fun _ h => h.elim, fun _ h => absurd h not_mem_nil,
      nodup_nil, rfl, fun _ h => absurd h not_mem_nil⟩
  exact ⟨_, hbefore.restarted totalValidators⟩

theorem inv_reached (vs : ValidatorSet) (events : List Event) :
    ∃ who, Inv vs who ∅ (reached records totalValidators vs events).pipeline
      (reached records totalValidators vs events).burns := by
  obtain ⟨who, hboot⟩ := inv_boot records totalValidators vs
  exact ⟨who, inv_steps events hboot⟩

/-- However often writes are refused and processes stop, a record is burnt at most once, and
nothing else changes the validators. -/
theorem burns_at_most_once (records : List SlashEvidenceRecord) (totalValidators : UInt64)
    (vs : ValidatorSet) (events : List Event) :
    (reached records totalValidators vs events).pipeline.validators =
        burnAll vs (reached records totalValidators vs events).burns ∧
      ∀ id, ((reached records totalValidators vs events).burns.map (·.record.id)).count id ≤ 1 := by
  obtain ⟨who, hinv⟩ := inv_reached records totalValidators vs events
  exact ⟨hinv.ledger, nodup_iff_count_le_one.mp hinv.once⟩

end Process

end SlashingPipeline

end ZbxChain
