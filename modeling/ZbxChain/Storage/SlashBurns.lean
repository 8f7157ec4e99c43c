import Mathlib.Algebra.BigOperators.Group.Finset.Piecewise
import ZbxChain.Lib.FiniteMap
import ZbxChain.Storage.Db

/-!
# Slash burns on account balances

`apply_slash_burns` of `db.rs` reads every balance from the database while its writes gather in
a batch, so of several burns of an offender only the last one is seen by the next block.
-/

namespace ZbxChain

open List

def AccountState.burnt (acct : AccountState) (amount : Nat) : AccountState :=
  acct.setBalanceU128 (acct.balanceU128 - min amount acct.balanceU128)

namespace ZbxDb

variable (db : ZbxDb) (burns : List (Address × Nat))

/-- One batch: every burn starts from the stored account, so that of two burns of one
account the second is what remains. -/
def applySlashBurns : ZbxDb :=
  burns.foldl (fun acc b => acc.putAccount b.1 ((db.getAccount b.1).burnt b.2)) db

/-- The amounts that `apply_slash_burns` returns. -/
def actualBurns : List Nat :=
  burns.map fun b => min b.2 (db.getAccount b.1).balanceU128

/-! ## What is meant -/

variable (addr : Address)

def balanceOf : Nat := (db.getAccount addr).balance.toNat

def offenders : Finset Address := (burns.map (·.1)).toFinset

def amountsOf : List Nat :=
  (burns.filter (·.1 = addr)).map (·.2)

def BalanceRight : Prop :=
  (db.applySlashBurns burns).balanceOf addr = db.balanceOf addr - (amountsOf burns addr).sum

def lostBy : Nat :=
  db.balanceOf addr - (db.applySlashBurns burns).balanceOf addr

def BurnsExact : Prop :=
  (∀ addr, BalanceRight db burns addr) ∧
    (db.actualBurns burns).sum = ∑ addr ∈ offenders burns, lostBy db burns addr

/-! ## What the code does -/

theorem getAccount_putAccount (addr other : Address) (acct : AccountState) :
    (db.putAccount addr acct).getAccount other =
      if other = addr then acct else db.getAccount other := by
  unfold getAccount putAccount
  rw [FiniteMap.lookup_insert_eq]
  split <;> rfl

theorem getAccount_foldl_putAccount (f : Address × Nat → AccountState) (addr : Address) :
    (burns.foldl (fun db' burn => db'.putAccount burn.1 (f burn)) db).getAccount addr =
      (((burns.filter (·.1 = addr)).getLast?).map f).getD (db.getAccount addr) := by
  induction burns using reverseRecOn with
  | nil => rfl
  | append_singleton rest burn ih =>
    rw [foldl_append, foldl_cons, foldl_nil, getAccount_putAccount, ih,
      filter_append]
    by_cases heq : addr = burn.1
    · simp [heq]
    · simp [heq, Ne.symm heq]

theorem balanceOf_applySlashBurns : (db.applySlashBurns burns).balanceOf addr =
      ((amountsOf burns addr).getLast?.map fun amount =>
        (db.getAccount addr).balanceU128 - min amount (db.getAccount addr).balanceU128).getD
          (db.balanceOf addr) := by
  unfold balanceOf amountsOf
  unfold applySlashBurns
  rw [getAccount_foldl_putAccount, getLast?_map]
  cases hlast : (burns.filter (·.1 = addr)).getLast? with
  | none => rfl
  | some burn =>
    have haddr : burn.1 = addr := by
      simpa using (mem_filter.mp (mem_of_getLast? hlast)).2
    have hbound := (db.getAccount burn.1).balanceU128_lt
    subst haddr
    exact AccountState.balance_setBalanceU128 _ (by omega)

/-! ## Sums over offenders -/

theorem sum_by_offender (f : Address × Nat → Nat) {s : Finset Address}
    (hs : ∀ burn ∈ burns, burn.1 ∈ s) :
    (burns.map f).sum = ∑ addr ∈ s, ((burns.filter (·.1 = addr)).map f).sum := by
  induction burns with
  | nil => simp
  | cons burn rest ih =>
    have hsplit : ∀ addr, (((burn :: rest).filter (·.1 = addr)).map f).sum =
        (if burn.1 = addr then f burn else 0) + ((rest.filter (·.1 = addr)).map f).sum := by
      intro addr
      by_cases heq : burn.1 = addr <;> simp [heq]
    rw [map_cons, sum_cons, ih fun b hb => hs b (mem_cons_of_mem burn hb)]
    simp only [hsplit, Finset.sum_add_distrib, Finset.sum_ite_eq]
    rw [if_pos (hs burn mem_cons_self)]

def returnedFor : Nat :=
  ((amountsOf burns addr).map (min · (db.getAccount addr).balanceU128)).sum

theorem sum_actualBurns :
    (db.actualBurns burns).sum = ∑ addr ∈ offenders burns, returnedFor db burns addr := by
  have hmem : ∀ burn ∈ burns, burn.1 ∈ offenders burns := fun burn hburn =>
    mem_toFinset.mpr (mem_map_of_mem hburn)
  unfold actualBurns
  rw [sum_by_offender burns _ hmem]
  refine Finset.sum_congr rfl fun addr _ => congrArg sum ?_
  unfold amountsOf
  rw [map_map]
  refine map_congr_left fun burn hburn => ?_
  rw [← (by simpa using (mem_filter.mp hburn).2 : burn.1 = addr)]
  rfl

theorem sum_min_le (amounts : List Nat) (b : Nat) :
    (amounts.map (min · b)).sum ≤ amounts.sum ∧ min amounts.sum b ≤ (amounts.map (min · b)).sum ∧
      (b = 0 → (amounts.map (min · b)).sum = 0) ∧
      ((∀ a ∈ amounts, a ≤ b) → (amounts.map (min · b)).sum = amounts.sum) := by
  induction amounts with
  | nil => simp
  | cons a rest ih =>
    obtain ⟨hle, hge, hzero, hall⟩ := ih
    simp only [map_cons, sum_cons, forall_mem_cons]
    refine ⟨by omega, by omega, fun hb => ?_, fun h => ?_⟩
    · have := hzero hb
      omega
    · rw [hall h.2, Nat.min_eq_left h.1]

/-! ## Exactness -/

/-- The condition for one account: nothing to burn, or its earlier burns sum to what the `u128`
does not hold. -/
def OnlyLastCounts : Prop :=
  db.balanceOf addr = 0 ∨
    (amountsOf burns addr).dropLast.sum = db.balanceOf addr - (db.getAccount addr).balanceU128

theorem balanceU128_eq_min (a : AccountState) :
    a.balanceU128 = min a.balance.toNat (2 ^ 128 - 1) := by
  unfold AccountState.balanceU128
  split <;> omega

theorem account_exact_iff (hrange : ∀ burn ∈ burns, burn.2 < 2 ^ 128) {addr : Address}
    (haddr : addr ∈ offenders burns) :
    (BalanceRight db burns addr → lostBy db burns addr ≤ returnedFor db burns addr) ∧
      (BalanceRight db burns addr ∧ lostBy db burns addr = returnedFor db burns addr ↔
        OnlyLastCounts db burns addr) := by
  have hne : amountsOf burns addr ≠ [] := by
    obtain ⟨burn, hburn, heq⟩ := mem_map.mp (mem_toFinset.mp haddr)
    exact ne_nil_of_mem (mem_map_of_mem (mem_filter.mpr ⟨hburn, by simpa using heq⟩))
  have hamounts : ∀ a ∈ amountsOf burns addr, a < 2 ^ 128 := by
    intro a ha
    obtain ⟨burn, hburn, rfl⟩ := mem_map.mp ha
    exact hrange burn (mem_of_mem_filter hburn)
  have hafter := db.balanceOf_applySlashBurns burns addr
  unfold OnlyLastCounts BalanceRight lostBy returnedFor
  generalize amountsOf burns addr = amounts at hne hamounts hafter ⊢
  obtain ⟨init, last, rfl⟩ : ∃ init last, amounts = init ++ [last] :=
    ⟨_, _, (dropLast_append_getLast hne).symm⟩
  rw [getLast?_concat] at hafter
  have hb := balanceU128_eq_min (db.getAccount addr)
  obtain ⟨hle, hge, hzero, hall⟩ := sum_min_le init (db.getAccount addr).balanceU128
  have hlast := hamounts last (by simp)
  have hbig : 2 ^ 128 ≤ db.balanceOf addr →
      (init.map (min · (db.getAccount addr).balanceU128)).sum = init.sum := by
    intro hfull
    refine hall fun a ha => ?_
    have := hamounts a (by simp [ha])
    unfold balanceOf at hfull
    omega
  simp only [hafter, map_append, map_cons, map_nil, sum_append, sum_cons,
    sum_nil, dropLast_concat, Option.map_some, Option.getD_some]
  change (db.getAccount addr).balanceU128 = min (db.balanceOf addr) _ at hb
  generalize (init.map (min · (db.getAccount addr).balanceU128)).sum = kept at *
  generalize (db.getAccount addr).balanceU128 = b at *
  generalize db.balanceOf addr = B at *
  omega

theorem balanceRight_of_not_mem {addr : Address} (haddr : addr ∉ offenders burns) :
    BalanceRight db burns addr := by
  have hnone : amountsOf burns addr = [] := by
    unfold amountsOf
    rw [filter_eq_nil_iff.mpr fun burn hburn heq => haddr ?_, map_nil]
    exact mem_toFinset.mpr (mem_map.mpr ⟨burn, hburn, by simpa using heq⟩)
  unfold BalanceRight
  rw [balanceOf_applySlashBurns, hnone]
  rfl

/-- All burns are accounted for exactly when for every account only its last one counts. -/
theorem burnsExact_iff (hrange : ∀ burn ∈ burns, burn.2 < 2 ^ 128) :
    BurnsExact db burns ↔ ∀ addr ∈ offenders burns, OnlyLastCounts db burns addr := by
  have haccount := fun addr (haddr : addr ∈ offenders burns) =>
    account_exact_iff db burns hrange haddr
  unfold BurnsExact
  rw [sum_actualBurns]
  constructor
  · rintro ⟨hright, hsum⟩ addr haddr
    have hle : ∀ addr ∈ offenders burns, lostBy db burns addr ≤ returnedFor db burns addr :=
      fun addr haddr => (haccount addr haddr).1 (hright addr)
    exact (haccount addr haddr).2.mp
      ⟨hright addr, (Finset.sum_eq_sum_iff_of_le hle).mp hsum.symm addr haddr⟩
  intro h
  have hboth := fun addr haddr => (haccount addr haddr).2.mpr (h addr haddr)
  refine ⟨fun addr => ?_, Finset.sum_congr rfl fun addr haddr => (hboth addr haddr).2.symm⟩
  by_cases haddr : addr ∈ offenders burns
  · exact (hboth addr haddr).1
  · exact balanceRight_of_not_mem db burns haddr

def sampleDb : ZbxDb := empty.putAccount 1 (AccountState.default.setBalanceU128 100)

theorem burnsExact_iff_sample : BurnsExact sampleDb [(1, 30), (2, 50)] := by
  refine (burnsExact_iff sampleDb [(1, 30), (2, 50)] (by decide)).mpr fun addr haddr => ?_
  -- each offender has one burn, and 2 has no balance
  obtain rfl | rfl : addr = 1 ∨ addr = 2 := by simpa [offenders] using haddr
  · exact .inr (by decide +kernel)
  · exact .inl (by decide +kernel)

/-- Two burns of one account: 80 are returned, and 50 are lost. -/
theorem first_burn_is_overwritten : sampleDb.actualBurns [(1, 30), (1, 50)] = [30, 50] ∧
      (sampleDb.applySlashBurns [(1, 30), (1, 50)]).balanceOf 1 = 50 ∧
      ¬ BurnsExact sampleDb [(1, 30), (1, 50)] := by
  have hbalance : (sampleDb.applySlashBurns [(1, 30), (1, 50)]).balanceOf 1 = 50 := by
    decide +kernel
  refine ⟨by decide +kernel, hbalance, fun h => ?_⟩
  have hright := h.1 1
  unfold BalanceRight at hright
  rw [hbalance] at hright
  revert hright
  decide +kernel

end ZbxDb

end ZbxChain
