import ZbxChain.Staking.StatusChanges

/-!
# Who is elected

`elect_active_set` ranks the eligible validators by their total stake and, where stakes are
equal, by their address, and takes the first `MAX_VALIDATORS` of them.
-/

namespace ZbxChain

open List ValidatorSet

namespace ValidatorSet

variable {vs : ValidatorSet}

/-! ## The ranking -/

def Eligible (vs : ValidatorSet) (a : Address) : Prop :=
  ∃ v, vs.get a = some v ∧ v.isEligible = true

def stakeOf (vs : ValidatorSet) (a : Address) : Nat := ((vs.get a).map (·.totalStake)).getD 0

def Outranks (vs : ValidatorSet) (a b : Address) : Prop :=
  vs.stakeOf b < vs.stakeOf a ∨ (vs.stakeOf a = vs.stakeOf b ∧ a < b)

/-- The first `maxValidators` of the eligible validators, in the order of their rank. -/
structure IsTop (vs : ValidatorSet) (l : List Address) : Prop where
  eligible : ∀ a ∈ l, vs.Eligible a
  ordered : l.Pairwise vs.Outranks
  best : ∀ a ∈ l, ∀ b, vs.Eligible b → b ∉ l → vs.Outranks a b
  length : l.length =
    min maxValidators (vs.validators.entries.filter (·.2.isEligible)).length

def Before (a b : Address × Nat) : Prop := b.2 < a.2 ∨ (a.2 = b.2 ∧ a.1 ≤ b.1)

instance : DecidableRel Before := fun a b =>
  inferInstanceAs (Decidable (b.2 < a.2 ∨ (a.2 = b.2 ∧ a.1 ≤ b.1)))

instance : Std.Total Before := ⟨fun a b => by
  rcases Nat.lt_trichotomy a.2 b.2 with h | h | h
  · exact .inr (.inl h)
  · exact (BitVec.le_total a.1 b.1).imp (fun ha => .inr ⟨h, ha⟩) fun hb => .inr ⟨h.symm, hb⟩
  · exact .inl (.inl h)⟩

instance : IsTrans (Address × Nat) Before := ⟨fun a b c hab hbc => by
  rcases hab with hab | ⟨hab, hab'⟩ <;> rcases hbc with hbc | ⟨hbc, hbc'⟩
  · exact .inl (hbc.trans hab)
  · exact .inl (hbc ▸ hab)
  · exact .inl (hab ▸ hbc)
  · exact .inr ⟨hab.trans hbc, BitVec.le_trans hab' hbc'⟩⟩

theorem Before.antisymm {a b : Address × Nat} (hab : Before a b) (hba : Before b a) : a = b := by
  rcases hab with hab | ⟨hab, hle⟩ <;> rcases hba with hba | ⟨hba, hle'⟩
  · exact absurd hab hba.asymm
  · exact absurd hba hab.ne
  · exact absurd hab hba.ne
  · exact Prod.ext (BitVec.le_antisymm hle hle') hab

def candidates (vs : ValidatorSet) : List (Address × Nat) :=
  ((vs.validators.entries.map (·.2)).filter (·.isEligible)).map fun v => (v.address, v.totalStake)

theorem elected_eq (vs : ValidatorSet) :
    vs.elected = ((vs.candidates.insertionSort Before).take maxValidators).map (·.1) := rfl

theorem elected_congr {vs' : ValidatorSet} (h : ∀ a, vs'.get a = vs.get a) :
    vs'.elected = vs.elected := by
  have hperm : vs'.candidates.Perm vs.candidates :=
    (((FiniteMap.entries_perm h).map _).filter _).map _
  have hsorted : vs'.candidates.insertionSort Before = vs.candidates.insertionSort Before := by
    refine Perm.eq_of_pairwise (fun _ _ _ _ => Before.antisymm)
      (pairwise_insertionSort _ _) (pairwise_insertionSort _ _) ?_
    exact ((perm_insertionSort _ _).trans hperm).trans (perm_insertionSort _ _).symm
  rw [elected_eq, elected_eq, hsorted]

section

variable (hkeyed : vs.Keyed)

include hkeyed

theorem candidates_eq : vs.candidates =
    (vs.validators.entries.filter (·.2.isEligible)).map fun e => (e.1, e.2.totalStake) := by
  unfold candidates
  rw [filter_map, map_map]
  refine map_congr_left fun e he => ?_
  have hget : vs.get e.1 = some e.2 := AList.mem_lookup_iff.mpr (mem_of_mem_filter he)
  exact congrArg (·, e.2.totalStake) (hkeyed e.1 e.2 hget)

theorem mem_candidates {c : Address × Nat} :
    c ∈ vs.candidates ↔ vs.Eligible c.1 ∧ c.2 = vs.stakeOf c.1 := by
  rw [candidates_eq hkeyed]
  constructor
  · intro hc
    obtain ⟨e, he, rfl⟩ := mem_map.mp hc
    obtain ⟨hmem, heligible⟩ := mem_filter.mp he
    have hget : vs.get e.1 = some e.2 := AList.mem_lookup_iff.mpr hmem
    exact ⟨⟨e.2, hget, heligible⟩, by simp only [stakeOf, hget, Option.map_some, Option.getD_some]⟩
  rintro ⟨⟨v, hget, heligible⟩, hstake⟩
  refine mem_map.mpr ⟨⟨c.1, v⟩, mem_filter.mpr ⟨AList.mem_lookup_iff.mp hget,
    heligible⟩, Prod.ext rfl ?_⟩
  rw [hstake, stakeOf, hget]
  rfl

theorem nodup_candidates : (vs.candidates.map (·.1)).Nodup := by
  rw [candidates_eq hkeyed, map_map]
  have hkeys : (vs.validators.entries.map Sigma.fst).Nodup := vs.validators.nodupKeys
  exact hkeys.sublist (filter_sublist.map _)

theorem isTop_elected : vs.IsTop vs.elected := by
  have hperm := perm_insertionSort Before vs.candidates
  have hsplit := take_append_drop maxValidators (vs.candidates.insertionSort Before)
  have hsorted := pairwise_insertionSort Before vs.candidates
  have hmem : ∀ c ∈ vs.candidates.insertionSort Before, vs.Eligible c.1 ∧ c.2 = vs.stakeOf c.1 :=
    fun c hc => (mem_candidates hkeyed).mp (hperm.mem_iff.mp hc)
  have hnodup : ((vs.candidates.insertionSort Before).map (·.1)).Nodup :=
    (hperm.map _).nodup_iff.mpr (nodup_candidates hkeyed)
  -- in the sorted list a pair that comes first outranks the later ones
  have hrank : (vs.candidates.insertionSort Before).Pairwise fun a b => vs.Outranks a.1 b.1 := by
    have hne := pairwise_map.mp hnodup
    refine (hsorted.and hne).imp_of_mem fun {a b} ha hb hab => ?_
    obtain ⟨hle | ⟨heq, hle⟩, hab⟩ := hab
    · exact .inl (by rw [← (hmem a ha).2, ← (hmem b hb).2]; exact hle)
    · exact .inr ⟨by rw [← (hmem a ha).2, ← (hmem b hb).2]; exact heq, BitVec.lt_of_le_ne hle hab⟩
  rw [← hsplit] at hrank
  obtain ⟨htop, -, hacross⟩ := pairwise_append.mp hrank
  rw [elected_eq]
  constructor
  case eligible =>
    intro a ha
    obtain ⟨c, hc, rfl⟩ := mem_map.mp ha
    exact (hmem c (mem_of_mem_take hc)).1
  case ordered => exact pairwise_map.mpr htop
  case best =>
    intro a ha b hb hnot
    obtain ⟨c, hc, rfl⟩ := mem_map.mp ha
    have hin : (b, vs.stakeOf b) ∈ vs.candidates.insertionSort Before :=
      hperm.mem_iff.mpr ((mem_candidates hkeyed).mpr ⟨hb, rfl⟩)
    rw [← hsplit] at hin
    rcases mem_append.mp hin with hin | hin
    · exact absurd (mem_map_of_mem hin) hnot
    · exact hacross c hc _ hin
  case length =>
    rw [length_map, length_take, hperm.length_eq, candidates_eq hkeyed, length_map]

end

/-! ## The election -/

theorem Eligible.statusOf {a : Address} (h : vs.Eligible a) :
    vs.statusOf a = some .active ∨ vs.statusOf a = some .pending := by
  obtain ⟨v, hget, heligible⟩ := h
  rw [statusOf_of_get hget]
  unfold Validator.isEligible at heligible
  cases hstatus : v.status <;> simp_all

/-- **The election.** The active set becomes the top of the ranking, whatever the order in which
the map is read. Its members are active, members of the old set outside it are not, and the
statuses that keep a validator out of elections stay as they are. -/
theorem electActiveSet_spec (vs : ValidatorSet) (hkeyed : vs.Keyed) :
    vs.IsTop vs.electActiveSet.activeSet ∧ (∀ vs' : ValidatorSet, (∀ a, vs'.get a = vs.get a) →
        vs'.electActiveSet.activeSet = vs.electActiveSet.activeSet) ∧
      (∀ a ∈ vs.electActiveSet.activeSet, vs.electActiveSet.statusOf a = some .active) ∧
      (∀ a ∈ vs.activeSet, a ∉ vs.electActiveSet.activeSet →
        vs.electActiveSet.statusOf a ≠ some .active) ∧
      ∀ a status, vs.statusOf a = some status → status ≠ .active → status ≠ .pending →
        vs.electActiveSet.statusOf a = some status := by
  have htop : vs.IsTop vs.elected := isTop_elected hkeyed
  have hset : vs.electActiveSet.activeSet = vs.elected := rfl
  rw [hset]
  refine ⟨htop, fun vs' h => elected_congr h, fun a ha => ?_, fun a ha hnot => ?_,
    fun a status hstatus hactive hpending => ?_⟩
  · rw [statusOf_electActiveSet, if_pos ha]
    rcases (htop.eligible a ha).statusOf with h | h <;> rw [h] <;> rfl
  · rw [statusOf_electActiveSet, if_neg hnot, if_pos ha]
    cases vs.statusOf a with
    | none => simp
    | some s =>
      rw [Option.map_some, ne_eq, Option.some_inj]
      split <;> simp_all
  have hnot : a ∉ vs.elected := by
    intro ha
    rcases (htop.eligible a ha).statusOf with h | h <;> simp_all
  rw [statusOf_electActiveSet, if_neg hnot, hstatus, Option.map_some, if_neg hactive]
  split <;> rfl

def contender (n : Nat) : Validator :=
  ⟨BitVec.ofNat 160 n, [], minSelfStake + n, 0, 500, .active, 0, 0, 0, 0, 0⟩

/-- One validator more than there are places; the one with the least stake was in. -/
def crowded : ValidatorSet :=
  { (range 101).foldl (fun vs n => vs.put (BitVec.ofNat 160 n) (contender n)) new with
    activeSet := [0] }

/-- The order is that of the stakes, and the last one is demoted. -/
theorem electActiveSet_spec_crowded :
    crowded.electActiveSet.activeSet =
      (range 100).reverse.map (fun n => BitVec.ofNat 160 (n + 1)) ∧
    crowded.IsTop crowded.electActiveSet.activeSet ∧
    crowded.electActiveSet.statusOf 0 ≠ some .active := by
  have hkeyed : crowded.Keyed := foldlRecOn (motive := Keyed) (range 101) _
    (fun _ _ h => absurd h (by simp [new, get])) fun vs h n _ => h.put rfl
  have hset : crowded.electActiveSet.activeSet =
      (range 100).reverse.map (fun n => BitVec.ofNat 160 (n + 1)) := by decide +kernel
  obtain ⟨htop, -, -, hdemoted, -⟩ := electActiveSet_spec crowded hkeyed
  refine ⟨hset, htop, hdemoted 0 mem_cons_self ?_⟩
  rw [hset]
  decide

end ValidatorSet

end ZbxChain
