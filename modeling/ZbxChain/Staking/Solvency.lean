import ZbxChain.Staking.Delegations

/-!
# What the escrow owes

The escrow account of the staking precompile owes the stakes and the rewards of all validators and
the unbonding amounts that are queued in the write set over the database.
-/

namespace ZbxChain

open FiniteMap BalanceAccess StakingState Validator List AList

/-! ## The unbonding queue -/

namespace StakingDelta

/-- The queue of the database, with the deletions and then the entries of the write set. -/
def unbondingOver (d : StakingDelta) (db : ZbxDb) : Map (UInt64 × Address × Address) Nat :=
  insertAll (eraseAll db.unbonding d.unbondingDeletes.keys) d.unbondingPuts.entries

def queued (d : StakingDelta) (db : ZbxDb) : Nat :=
  totalBy (fun _ amount => amount) (d.unbondingOver db)

def Apart (d : StakingDelta) : Prop :=
  ∀ key, d.isDeleted key = true → d.unbondingPuts.lookup key = none

variable (d : StakingDelta) (db : ZbxDb)

variable (key : UInt64 × Address × Address)

theorem isDeleted_iff : d.isDeleted key = true ↔ key ∈ d.unbondingDeletes.keys := by
  unfold isDeleted
  rw [AList.lookup_isSome, AList.mem_keys]

theorem lookup_unbondingOver : (d.unbondingOver db).lookup key = (d.unbondingPuts.lookup key).or
      (if d.isDeleted key then none else db.unbonding.lookup key) := by
  unfold unbondingOver
  rw [lookup_insertAll_entries, lookup_eraseAll]
  by_cases hdeleted : d.isDeleted key = true
  · rw [if_pos ((d.isDeleted_iff key).mp hdeleted), if_pos hdeleted]
  · rw [if_neg fun hmem => hdeleted ((d.isDeleted_iff key).mpr hmem), if_neg hdeleted]

variable (unlock : UInt64) (delegator validator : Address)

theorem getD_unbondingOver : ((d.unbondingOver db).lookup (unlock, delegator, validator)).getD 0 =
      d.getUnbondingEntry db unlock delegator validator := by
  rw [lookup_unbondingOver]
  unfold getUnbondingEntry ZbxDb.getUnbondingEntry
  dsimp only
  cases d.unbondingPuts.lookup (unlock, delegator, validator) <;>
    cases d.isDeleted (unlock, delegator, validator) <;> rfl

/-! ### Entries put -/

variable (amount : Nat)

theorem lookup_putUnbondingEntry (key : UInt64 × Address × Address) :
    ((d.putUnbondingEntry unlock delegator validator amount).unbondingOver db).lookup key =
      ((d.unbondingOver db).insert (unlock, delegator, validator) amount).lookup key := by
  rw [lookup_unbondingOver]
  unfold putUnbondingEntry isDeleted
  rw [lookup_insert_eq, lookup_insert_eq, lookup_erase_eq, lookup_unbondingOver]
  split <;> rfl

theorem queued_putUnbondingEntry :
    (d.putUnbondingEntry unlock delegator validator amount).queued db +
        d.getUnbondingEntry db unlock delegator validator = d.queued db + amount := by
  have hinsert := totalBy_insert (fun _ amount => amount) (d.unbondingOver db)
    (unlock, delegator, validator) amount
  have hweight : weightBy (fun _ amount => amount) (d.unbondingOver db)
      (unlock, delegator, validator) = d.getUnbondingEntry db unlock delegator validator := by
    rw [← getD_unbondingOver, weightBy, Option.map_id']
  rw [hweight] at hinsert
  refine Eq.trans (congrArg (· + _) (totalBy_congr _ fun key => ?_)) hinsert
  exact d.lookup_putUnbondingEntry db unlock delegator validator amount key

theorem queued_takeDelegation (delegator : Address) (unlock : UInt64) (amount : Nat) :
    (d.takeDelegation db validator delegator unlock amount).queued db ≤ d.queued db + amount := by
  have hput := (d.putDelegation validator delegator
    (d.getDelegation db validator delegator - amount)).queued_putUnbondingEntry db unlock delegator
      validator (satAddU128 (d.getUnbondingEntry db unlock delegator validator) amount)
  have hle := satAddU128_le (d.getUnbondingEntry db unlock delegator validator) amount
  -- the delegation itself is no part of the queue
  change (d.takeDelegation db validator delegator unlock amount).queued db +
    d.getUnbondingEntry db unlock delegator validator = d.queued db + _ at hput
  omega

/-! ### Entries deleted -/

theorem lookup_deleteUnbondingEntry (key : UInt64 × Address × Address) :
    ((d.deleteUnbondingEntry unlock delegator validator).unbondingOver db).lookup key =
      ((d.unbondingOver db).erase (unlock, delegator, validator)).lookup key := by
  rw [lookup_unbondingOver]
  unfold deleteUnbondingEntry isDeleted
  rw [lookup_insert_eq, lookup_erase_eq, lookup_erase_eq, lookup_unbondingOver]
  split <;> rfl

theorem lookup_deleteUnbondingEntries (entries : List (UInt64 × Address))
    {m : Map (UInt64 × Address × Address) Nat}
    (h : ∀ key, (d.unbondingOver db).lookup key = m.lookup key) (key : UInt64 × Address × Address) :
    ((d.deleteUnbondingEntries delegator entries).unbondingOver db).lookup key =
      (eraseAll m (entries.map fun e => (e.1, delegator, e.2))).lookup key := by
  induction entries generalizing d m with
  | nil => exact h key
  | cons e rest ih =>
    refine ih (d.deleteUnbondingEntry e.1 delegator e.2) fun other => ?_
    rw [lookup_deleteUnbondingEntry, lookup_erase_eq, lookup_erase_eq, h]

/-! ### Matured entries -/

def KeysApart (l : List (UInt64 × Address × Nat)) : Prop :=
  l.Pairwise fun x y => (x.1, x.2.1) ≠ (y.1, y.2.1)

theorem keysApart_filterMap (m : Map (UInt64 × Address × Address) Nat) (who : Address)
    {pick : ((_ : UInt64 × Address × Address) × Nat) → Option (UInt64 × Address × Nat)}
    (hpick : ∀ e x, pick e = some x → e.1 = (x.1, who, x.2.1)) :
    KeysApart (m.entries.filterMap pick) := by
  refine Pairwise.filterMap pick (fun e e' hne x hx x' hx' heq => hne ?_)
    m.nodupKeys.pairwise_ne
  obtain ⟨hunlock, hvalidator⟩ := Prod.mk.inj heq
  rw [hpick e x hx, hpick e' x' hx', hunlock, hvalidator]

variable {who : Address} {height : UInt64} {x : UInt64 × Address × Nat}

theorem mem_iterMaturedUnbondingsFor : x ∈ db.iterMaturedUnbondingsFor who height ↔
      x.1 ≤ height ∧ db.unbonding.lookup (x.1, who, x.2.1) = some x.2.2 := by
  constructor
  · intro h
    obtain ⟨e, he, hx⟩ := mem_filterMap.mp ((mem_insertionSort _).mp h)
    split_ifs at hx with hcond
    cases hx
    rw [← hcond.2]
    exact ⟨hcond.1, mem_lookup_iff.mpr he⟩
  rintro ⟨hheight, hlookup⟩
  exact (mem_insertionSort _).mpr <| mem_filterMap.mpr
    ⟨⟨(x.1, who, x.2.1), x.2.2⟩, mem_lookup_iff.mp hlookup, if_pos ⟨hheight, rfl⟩⟩

theorem keysApart_iterMaturedUnbondingsFor (who : Address) (height : UInt64) :
    KeysApart (db.iterMaturedUnbondingsFor who height) := by
  refine ((perm_insertionSort _ _).pairwise_iff Ne.symm).mpr
    (keysApart_filterMap db.unbonding who fun e x hx => ?_)
  split_ifs at hx with hcond
  cases hx
  rw [← hcond.2]

theorem keysApart_maturedOnDisk (who : Address) (height : UInt64) :
    KeysApart (d.maturedOnDisk db who height) := by
  unfold maturedOnDisk KeysApart
  rw [pairwise_map]
  exact (keysApart_iterMaturedUnbondingsFor db who height).filter _

theorem keysApart_iterMatured (who : Address) (height : UInt64) :
    KeysApart (d.iterMaturedUnbondingsFor db who height) := by
  refine pairwise_append.mpr ⟨d.keysApart_maturedOnDisk db who height, ?_, ?_⟩
  · refine keysApart_filterMap d.unbondingPuts who fun e x hx => ?_
    split_ifs at hx with hcond
    cases hx
    rw [← hcond.1]
  intro o ho x hx
  obtain ⟨e, -, hx⟩ := mem_filterMap.mp hx
  split_ifs at hx with hcond
  cases hx
  exact of_decide_eq_true (all_eq_true.mp hcond.2.2 o ho)

theorem mem_maturedOnDisk :
    x ∈ d.maturedOnDisk db who height ↔ x.1 ≤ height ∧ d.isDeleted (x.1, who, x.2.1) = false ∧
      ∃ amount, db.unbonding.lookup (x.1, who, x.2.1) = some amount ∧
        (d.unbondingPuts.lookup (x.1, who, x.2.1)).getD amount = x.2.2 := by
  constructor
  · intro h
    obtain ⟨e, he, rfl⟩ := mem_map.mp h
    obtain ⟨he, hkept⟩ := mem_filter.mp he
    obtain ⟨hheight, hlookup⟩ := (mem_iterMaturedUnbondingsFor db).mp he
    exact ⟨hheight, by simpa using hkept, e.2.2, hlookup, rfl⟩
  rintro ⟨hheight, hkept, amount, hlookup, hamount⟩
  refine mem_map.mpr ⟨(x.1, x.2.1, amount), mem_filter.mpr
    ⟨(mem_iterMaturedUnbondingsFor db).mpr ⟨hheight, hlookup⟩, by simpa using hkept⟩, ?_⟩
  exact Prod.ext rfl (Prod.ext rfl hamount)

theorem mem_iterMatured : x ∈ d.iterMaturedUnbondingsFor db who height ↔
      x.1 ≤ height ∧ (d.unbondingOver db).lookup (x.1, who, x.2.1) = some x.2.2 := by
  have hdisk : ∀ {o}, o ∈ d.maturedOnDisk db who height →
      o.1 ≤ height ∧ (d.unbondingOver db).lookup (o.1, who, o.2.1) = some o.2.2 := by
    intro o ho
    obtain ⟨hheight, hkept, amount, hlookup, hamount⟩ := (d.mem_maturedOnDisk db).mp ho
    rw [lookup_unbondingOver, if_neg (by simp [hkept]), hlookup, ← hamount]
    exact ⟨hheight, by cases d.unbondingPuts.lookup (o.1, who, o.2.1) <;> rfl⟩
  constructor
  · intro h
    rcases mem_append.mp h with h | h
    · exact hdisk h
    obtain ⟨e, he, hx⟩ := mem_filterMap.mp h
    split_ifs at hx with hcond
    cases hx
    have hput : d.unbondingPuts.lookup e.1 = some e.2 := mem_lookup_iff.mpr he
    rw [lookup_unbondingOver]
    rw [← hcond.1, hput]
    exact ⟨hcond.2.1, rfl⟩
  · rintro ⟨hheight, hlookup⟩
    -- a key that is on disk has its entry there
    by_cases hseen : ∃ o ∈ d.maturedOnDisk db who height, (o.1, o.2.1) = (x.1, x.2.1)
    · obtain ⟨o, ho, hkey⟩ := hseen
      obtain ⟨hunlock, hvalidator⟩ := Prod.mk.inj hkey
      have hsame := (hdisk ho).2
      rw [hunlock, hvalidator, hlookup] at hsame
      refine mem_append_left _ (Eq.mp (congrArg (· ∈ _) ?_) ho)
      exact Prod.ext hunlock (Prod.ext hvalidator (Option.some.inj hsame).symm)
    have hnew : d.unbondingPuts.lookup (x.1, who, x.2.1) = some x.2.2 := by
      rw [lookup_unbondingOver] at hlookup
      cases hput : d.unbondingPuts.lookup (x.1, who, x.2.1) with
      | some amount => rw [hput] at hlookup; exact hlookup
      | none =>
        rw [hput] at hlookup
        by_cases hdeleted : d.isDeleted (x.1, who, x.2.1) = true
        · rw [if_pos hdeleted] at hlookup
          cases hlookup
        rw [if_neg hdeleted] at hlookup
        refine absurd ⟨x, (d.mem_maturedOnDisk db).mpr ⟨hheight, by simpa using hdeleted,
          x.2.2, hlookup, by rw [hput]; rfl⟩, rfl⟩ hseen
    refine mem_append_right _ (mem_filterMap.mpr
      ⟨⟨(x.1, who, x.2.1), x.2.2⟩, mem_lookup_iff.mp hnew, if_pos ⟨rfl, hheight, ?_⟩⟩)
    exact all_eq_true.mpr fun o ho => decide_eq_true fun heq => hseen ⟨o, ho, heq⟩

theorem queued_deleteMatured (who : Address) (height : UInt64) (validator : Address) :
    (d.deleteUnbondingEntries who
        ((d.maturedAt db who height validator).map fun e => (e.1, e.2.1))).queued db +
      ((d.maturedAt db who height validator).map (·.2.2)).sum = d.queued db := by
  set matured := d.maturedAt db who height validator with hmatured
  let keys := (matured.map fun e => (e.1, e.2.1)).map fun e => (e.1, who, e.2)
  have hapart : KeysApart matured := (d.keysApart_iterMatured db who height).filter _
  have hnodup : keys.Nodup := by
    refine pairwise_map.mpr (pairwise_map.mpr (hapart.imp fun hne heq => hne ?_))
    obtain ⟨hunlock, hrest⟩ := Prod.mk.inj heq
    exact Prod.ext hunlock (Prod.mk.inj hrest).2
  have hweights : keys.map (weightBy (fun _ amount => amount) (d.unbondingOver db)) =
      matured.map (·.2.2) := by
    rw [map_map, map_map]
    refine map_congr_left fun x hx => ?_
    have hlookup := ((d.mem_iterMatured db).mp (mem_of_mem_filter hx)).2
    show weightBy (fun _ amount => amount) (d.unbondingOver db) (x.1, who, x.2.1) = x.2.2
    rw [weightBy, hlookup]
    rfl
  have herase := totalBy_eraseAll (fun _ amount => amount) (d.unbondingOver db) hnodup
  rw [hweights] at herase
  refine Eq.trans (congrArg (· + _) (totalBy_congr _ fun key => ?_)) herase
  exact d.lookup_deleteUnbondingEntries db who _ (fun _ => rfl) key

/-! ### Commits -/

theorem lookup_commit (hapart : d.Apart) (delegations : List ((_ : Address × Address) × Nat))
    (key : UInt64 × Address × Address) : (db.applyStakingDelta delegations d.unbondingPuts.entries
      d.unbondingDeletes.entries).unbonding.lookup key = (d.unbondingOver db).lookup key := by
  have herase : ∀ m : Map (UInt64 × Address × Address) Nat,
      d.unbondingDeletes.entries.foldl (fun m e => m.erase e.1) m =
        eraseAll m d.unbondingDeletes.keys := by
    intro m
    have hkeys : d.unbondingDeletes.keys = d.unbondingDeletes.entries.map Sigma.fst := rfl
    rw [eraseAll, hkeys, foldl_map]
  rw [lookup_unbondingOver]
  show (lookup key (d.unbondingDeletes.entries.foldl (fun m e => m.erase e.1)
    (insertAll db.unbonding d.unbondingPuts.entries))) = _
  rw [herase, lookup_eraseAll, lookup_insertAll_entries]
  by_cases hdeleted : d.isDeleted key = true
  · rw [if_pos ((d.isDeleted_iff key).mp hdeleted), if_pos hdeleted, hapart key hdeleted]
    rfl
  · rw [if_neg fun hmem => hdeleted ((d.isDeleted_iff key).mpr hmem), if_neg hdeleted]

theorem queued_commit (hapart : d.Apart) (delegations : List ((_ : Address × Address) × Nat)) :
    StakingDelta.new.queued (db.applyStakingDelta delegations d.unbondingPuts.entries
      d.unbondingDeletes.entries) = d.queued db := by
  refine totalBy_congr _ fun key => ?_
  rw [lookup_unbondingOver, ← d.lookup_commit db hapart delegations]
  rfl

theorem Apart.putUnbondingEntry {d : StakingDelta} (h : d.Apart) (unlock : UInt64)
    (delegator validator : Address) (amount : Nat) :
    (d.putUnbondingEntry unlock delegator validator amount).Apart := by
  intro key hdeleted
  unfold StakingDelta.putUnbondingEntry isDeleted at *
  rw [lookup_erase_eq] at hdeleted
  split at hdeleted
  · cases hdeleted
  rename_i hkey
  rw [lookup_insert_ne hkey]
  exact h key hdeleted

theorem Apart.deleteUnbondingEntries {d : StakingDelta} (h : d.Apart) (delegator : Address)
    (entries : List (UInt64 × Address)) : (d.deleteUnbondingEntries delegator entries).Apart := by
  induction entries generalizing d with
  | nil => exact h
  | cons e rest ih =>
    refine ih (d := d.deleteUnbondingEntry e.1 delegator e.2) fun key hdeleted => ?_
    unfold deleteUnbondingEntry isDeleted at *
    rw [lookup_erase_eq]
    split
    · rfl
    rename_i hkey
    rw [lookup_insert_ne hkey] at hdeleted
    exact h key hdeleted

end StakingDelta

/-! ## Liabilities -/

def Validator.liability (v : Validator) : Nat :=
  v.selfStake + v.delegatedStake + v.pendingRewards + v.delegatorRewardPool

def ValidatorSet.liabilities (vs : ValidatorSet) : Nat :=
  totalBy (fun _ => liability) vs.validators

def StakingState.liabilities {B : Type} (s : StakingState B) (db : ZbxDb) : Nat :=
  s.vs.liabilities + s.delta.queued db

theorem ValidatorSet.liabilities_put (vs : ValidatorSet) (addr : Address) (v : Validator) :
    (vs.put addr v).liabilities + ((vs.get addr).map liability).getD 0 =
      vs.liabilities + v.liability :=
  totalBy_insert (fun _ => liability) vs.validators addr v

variable {addr : Address} {v : Validator}

theorem ValidatorSet.liabilities_put_of_get {vs : ValidatorSet} (hv : vs.get addr = some v)
    (v' : Validator) :
    (vs.put addr v').liabilities + v.liability = vs.liabilities + v'.liability := by
  have hput := vs.liabilities_put addr v'
  rw [hv] at hput
  exact hput

theorem liability_claimDelegatorShare (v : Validator) (stake : Nat) :
    (v.claimDelegatorShare stake).2.liability + (v.claimDelegatorShare stake).1 = v.liability := by
  unfold claimDelegatorShare
  split
  · rfl
  have hle : v.delegatorShare stake ≤ v.delegatorRewardPool := Nat.min_le_right _ _
  unfold liability
  dsimp only
  omega

theorem StakingState.liabilities_put {B : Type} {s : StakingState B} (db : ZbxDb)
    (hv : s.vs.get addr = some v) (v' : Validator) (balances : B) :
    { s with vs := s.vs.put addr v', balances := balances }.liabilities db + v.liability =
      s.liabilities db + v'.liability := by
  have hput := ValidatorSet.liabilities_put_of_get hv v'
  unfold liabilities
  dsimp only
  omega

theorem liability_claimRewards (v : Validator) :
    { v with pendingRewards := 0 }.liability + v.pendingRewards = v.liability := by
  unfold liability
  dsimp only
  omega

variable {B : Type} [BalanceAccess B] {db : ZbxDb} {s s' : StakingState B} {sender : Address}
  {sent : Nat} {height : UInt64} {call : StakingTx} {success : Bool}

def PaidFromEscrow (sender : Address) (balances balances' : B) (paid : Nat) : Prop :=
  (paid = 0 ∧ balances' = balances) ∨
    (paid ≤ getBalance balances stakingPrecompileAddr ∧ balances' = payout balances sender paid)

theorem StakingEffect.liabilities (h : StakingEffect db sender sent height call s success s') :
    ∃ paid, PaidFromEscrow sender s.balances s'.balances paid ∧
      s'.liabilities db + paid ≤ s.liabilities db + if success then sent else 0 := by
  cases h with
  | refused => exact ⟨0, .inl ⟨rfl, rfl⟩, le_rfl⟩
  | registered v hnew hv =>
    refine ⟨0, .inl ⟨rfl, rfl⟩, ?_⟩
    have hput := s.vs.liabilities_put sender v
    have hliability : v.liability = sent := by
      unfold liability
      rw [hv.selfStake, hv.delegatedStake, hv.pendingRewards, hv.delegatorRewardPool]
      rfl
    rw [hnew, hliability] at hput
    unfold liabilities
    dsimp only [Option.map_none, Option.getD_none] at hput ⊢
    rw [if_pos rfl]
    omega
  | delegated validator v _ hv _ _ =>
    refine ⟨0, .inl ⟨rfl, rfl⟩, ?_⟩
    have hput := ValidatorSet.liabilities_put_of_get hv
      { v with delegatedStake := satAddU128 v.delegatedStake sent }
    have hle := satAddU128_le v.delegatedStake sent
    have hqueued : (s.delta.addDelegation db validator sender sent).queued db =
      s.delta.queued db := rfl
    unfold liabilities withDelegation
    unfold liability at hput
    dsimp only at hput ⊢
    rw [hqueued, if_pos rfl]
    omega
  | recordedOnly validator v _ _ _ _ => exact ⟨0, .inl ⟨rfl, rfl⟩, le_rfl⟩
  | undelegated validator v hv amount _ hstake hprior =>
    refine ⟨0, .inl ⟨rfl, rfl⟩, ?_⟩
    have hput := ValidatorSet.liabilities_put_of_get hv
      { v with delegatedStake := v.delegatedStake - amount }
    have hqueue := s.delta.queued_takeDelegation db validator sender (unlockHeight height) amount
    unfold liability at hput
    unfold liabilities
    dsimp only at hput ⊢
    omega
  | withdrawn validator _ hpaid =>
    refine ⟨s.delta.maturedTotal db sender height validator, .inr ⟨hpaid, rfl⟩, ?_⟩
    have hdeleted := s.delta.queued_deleteMatured db sender height validator
    have hle : s.delta.maturedTotal db sender height validator ≤ _ := Nat.mod_le _ _
    unfold liabilities
    dsimp only
    omega
  | rewarded v hv _ hpaid =>
    refine ⟨v.pendingRewards, .inr ⟨hpaid, rfl⟩, ?_⟩
    have hput := liabilities_put db hv { v with pendingRewards := 0 }
      (payout s.balances sender v.pendingRewards)
    have hclaim := liability_claimRewards v
    omega
  | unrewarded v hv _ _ =>
    refine ⟨0, .inl ⟨rfl, rfl⟩, ?_⟩
    have hput := liabilities_put db hv { v with pendingRewards := 0 } s.balances
    have hclaim := liability_claimRewards v
    omega
  | shared validator v hv _ stake hpaid =>
    refine ⟨(v.claimDelegatorShare stake).1, .inr ⟨hpaid, rfl⟩, ?_⟩
    have hput := liabilities_put db hv (v.claimDelegatorShare stake).2
      (payout s.balances sender (v.claimDelegatorShare stake).1)
    have hshare := liability_claimDelegatorShare v stake
    omega
  | unshared validator v hv _ stake =>
    refine ⟨0, .inl ⟨rfl, rfl⟩, ?_⟩
    have hput := liabilities_put db hv (v.claimDelegatorShare stake).2 s.balances
    have hshare := liability_claimDelegatorShare v stake
    omega

theorem StakingEffect.apart (h : StakingEffect db sender sent height call s success s')
    (hapart : s.delta.Apart) : s'.delta.Apart := by
  cases h with
  | undelegated validator v hv amount _ _ _ =>
    exact StakingDelta.Apart.putUnbondingEntry
      (d := s.delta.putDelegation validator sender _) hapart _ _ _ _
  | withdrawn validator _ _ => exact hapart.deleteUnbondingEntries sender _
  | _ => exact hapart

end ZbxChain

/-!
## Reading through the write set

A block reads stakes through its `StakingDelta`, and later blocks read what `apply_staking_delta`
has made of it.
-/

namespace ZbxChain.StakingDelta

inductive Op
  | putDelegation (validator delegator : Address) (amount : Nat)
  | putUnbonding (unlock : UInt64) (delegator validator : Address) (amount : Nat)
  | deleteUnbonding (delegator : Address) (entries : List (UInt64 × Address))

def perform (d : StakingDelta) : Op → StakingDelta
  | .putDelegation validator delegator amount => d.putDelegation validator delegator amount
  | .putUnbonding unlock delegator validator amount =>
    d.putUnbondingEntry unlock delegator validator amount
  | .deleteUnbonding delegator entries => d.deleteUnbondingEntries delegator entries

variable (ops : List Op)

def run : StakingDelta := ops.foldl perform .new

def committed (d : StakingDelta) (db : ZbxDb) : ZbxDb :=
  db.applyStakingDelta d.delegations.entries d.unbondingPuts.entries d.unbondingDeletes.entries

theorem Apart.perform {d : StakingDelta} (h : d.Apart) (op : Op) : (d.perform op).Apart := by
  cases op with
  | putDelegation validator delegator amount => exact h
  | putUnbonding unlock delegator validator amount => exact h.putUnbondingEntry _ _ _ _
  | deleteUnbonding delegator entries => exact h.deleteUnbondingEntries _ _

theorem apart_foldl {d : StakingDelta} (h : d.Apart) :
    (ops.foldl StakingDelta.perform d).Apart := by
  induction ops generalizing d with
  | nil => exact h
  | cons op ops ih => exact ih (h.perform op)

theorem apart_run : (run ops).Apart := apart_foldl ops fun _ h => nomatch h

theorem KeysApart.nodup {l : List (UInt64 × Address × Nat)} (h : KeysApart l) : l.Nodup :=
  h.imp fun hne heq => hne (by rw [heq])

theorem iterMatured_commit {d : StakingDelta} (h : d.Apart) (db : ZbxDb) (who : Address)
    (height : UInt64) : (d.iterMaturedUnbondingsFor db who height).Perm
      ((d.committed db).iterMaturedUnbondingsFor who height) := by
  refine (List.perm_ext_iff_of_nodup (d.keysApart_iterMatured db who height).nodup
    (keysApart_iterMaturedUnbondingsFor _ who height).nodup).mpr fun x => ?_
  rw [mem_iterMatured, mem_iterMaturedUnbondingsFor, committed, lookup_commit d db h]

/-- What a block reads through its write set is what is read after the commit. -/
theorem reads_survive_commit (db : ZbxDb) :
    (∀ validator delegator, (run ops).getDelegation db validator delegator =
      ((run ops).committed db).getDelegation validator delegator) ∧
    (∀ unlock delegator validator, (run ops).getUnbondingEntry db unlock delegator validator =
      ((run ops).committed db).getUnbondingEntry unlock delegator validator) ∧
    ∀ who height, ((run ops).iterMaturedUnbondingsFor db who height).Perm
      (((run ops).committed db).iterMaturedUnbondingsFor who height) := by
  have hapart := apart_run ops
  refine ⟨fun validator delegator => ?_, fun unlock delegator validator => ?_,
    iterMatured_commit hapart db⟩
  · rw [← lookup_delegationsOver]
    exact (getD_writeDelegations _ (fun _ => rfl) (validator, delegator)).symm
  · rw [← getD_unbondingOver, ← lookup_commit _ db hapart (run ops).delegations.entries]
    rfl

/-- An entry on disk comes before one of the write set, even if it is unlocked later. -/
theorem matured_order_changes : (run [.putUnbonding 5 1 3 30]).iterMaturedUnbondingsFor
        { ZbxDb.empty with unbonding := AList.singleton (10, 1, 2) 70 } 1 20 =
      [(10, 2, 70), (5, 3, 30)] ∧
    ((run [.putUnbonding 5 1 3 30]).committed
        { ZbxDb.empty with unbonding := AList.singleton (10, 1, 2) 70 }).iterMaturedUnbondingsFor
          1 20 = [(5, 3, 30), (10, 2, 70)] := by
  decide +kernel

end ZbxChain.StakingDelta
