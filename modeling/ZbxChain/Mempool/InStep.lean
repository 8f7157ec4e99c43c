import ZbxChain.Lib.Runs
import ZbxChain.Mempool.Admission

/-!
# The pool and the stored accounts

What the pool holds of a sender is in step with the nonce and the balance that are stored for it:
the pending nonces are an interval from the stored one, and the balance pays for the transactions
of any choice of nonces (`InStep`).
-/

namespace ZbxChain

open List AList Mempool

namespace Mempool

open FiniteMap

/-! ## The invariant -/

/-- What the transactions with a sender and nonce can cost. There may be two, a pending and a
queued one, of which one at most is executed. -/
def reserve (pool : Mempool) (key : PoolKey) : Nat :=
  max (weightAt (fun slot => slotCost slot.tx.tx) pool.pending key)
    (weightAt (fun tx => slotCost tx.tx.tx) pool.queued key)

structure Filed (key : PoolKey) (tx : SignedTransaction) : Prop where
  sender : tx.sender = key.1
  nonce : tx.tx.nonce = key.2
  gas_le : tx.tx.intrinsicGas ≤ tx.tx.gasLimit.toNat
  nonce_lt : tx.tx.nonce.toNat + 1 < 2 ^ 64

/-- The pending nonces of a sender are the `count` ones from `nonce` on, and the tracker knows
the last of them, unless there is one at most. -/
structure Stretch (pool : Mempool) (s : Address) (nonce count : Nat) : Prop where
  pending : ∀ m : UInt64, (pool.pending.lookup (s, m)).isSome ↔
    nonce ≤ m.toNat ∧ m.toNat < nonce + count
  tracked : ∀ last, pool.nonceTracker.pendingMax.lookup s = some last →
    0 < count ∧ last.toNat + 1 = nonce + count
  untracked : pool.nonceTracker.pendingMax.lookup s = none → count ≤ 1

structure InStep (pool : Mempool) (s : Address) (nonce balance : Nat) : Prop where
  pending : ∀ m slot, pool.pending.lookup (s, m) = some slot → Filed (s, m) slot.tx
  queued : ∀ m tx, pool.queued.lookup (s, m) = some tx → Filed (s, m) tx.tx
  stretch : ∃ count, pool.Stretch s nonce count
  covered : ∀ ms : Finset UInt64, ∑ m ∈ ms, pool.reserve (s, m) ≤ balance

def Seen (pool : Mempool) (s : Address) (nonce : Nat) : Prop :=
  ∃ m, pool.nonceTracker.onChain.lookup s = some m ∧ m.toNat = nonce

/-! ## Other senders -/

structure SameFor (s : Address) (pool pool' : Mempool) : Prop where
  pending : ∀ m, pool'.pending.lookup (s, m) = pool.pending.lookup (s, m)
  queued : ∀ m, pool'.queued.lookup (s, m) = pool.queued.lookup (s, m)
  onChain : pool'.nonceTracker.onChain.lookup s = pool.nonceTracker.onChain.lookup s
  pendingMax : pool'.nonceTracker.pendingMax.lookup s = pool.nonceTracker.pendingMax.lookup s

variable {s addr : Address} {pool pool' pool'' : Mempool} {nonce balance : Nat}

namespace SameFor

theorem refl (s : Address) (pool : Mempool) : SameFor s pool pool :=
  ⟨fun _ => rfl, fun _ => rfl, rfl, rfl⟩

variable (h : SameFor s pool pool')

include h

theorem trans (h' : SameFor s pool' pool'') : SameFor s pool pool'' where
  pending m := (h'.pending m).trans (h.pending m)
  queued m := (h'.queued m).trans (h.queued m)
  onChain := h'.onChain.trans h.onChain
  pendingMax := h'.pendingMax.trans h.pendingMax

theorem reserve_eq (m : UInt64) : pool'.reserve (s, m) = pool.reserve (s, m) := by
  unfold reserve weightAt
  rw [h.pending, h.queued]

theorem inStep (hpool : pool.InStep s nonce balance) : pool'.InStep s nonce balance := by
  obtain ⟨count, hstretch⟩ := hpool.stretch
  refine ⟨?_, ?_, ⟨count, ?_, ?_, ?_⟩, ?_⟩
  · intro m slot hslot
    exact hpool.pending m slot ((h.pending m).symm.trans hslot)
  · intro m tx htx
    exact hpool.queued m tx ((h.queued m).symm.trans htx)
  · intro m
    rw [h.pending]
    exact hstretch.pending m
  · intro last hlast
    exact hstretch.tracked last (h.pendingMax.symm.trans hlast)
  · intro hnone
    exact hstretch.untracked (h.pendingMax.symm.trans hnone)
  intro ms
  rw [Finset.sum_congr rfl fun m _ => h.reserve_eq m]
  exact hpool.covered ms

theorem seen (hpool : pool.Seen s nonce) : pool'.Seen s nonce := by
  obtain ⟨m, hm, hnonce⟩ := hpool
  exact ⟨m, h.onChain.trans hm, hnonce⟩

end SameFor

theorem InStep.mono {balance' : Nat} (h : pool.InStep s nonce balance) (hle : balance ≤ balance') :
    pool.InStep s nonce balance' :=
  ⟨h.pending, h.queued, h.stretch, fun ms => (h.covered ms).trans hle⟩

section

variable (h : s ≠ addr)

include h

theorem key_ne (m m' : UInt64) : ((s, m) : PoolKey) ≠ (addr, m') :=
  fun heq => h (Prod.mk.inj heq).1

theorem pendingMax_setOnChain_ne (t : NonceTracker) (m : UInt64) :
    (t.setOnChain addr m).pendingMax.lookup s = t.pendingMax.lookup s := by
  unfold NonceTracker.setOnChain
  cases t.pendingMax.lookup addr with
  | none => rfl
  | some last =>
    dsimp only
    split
    · exact lookup_erase_ne h
    · rfl

theorem sameFor_observe (pool : Mempool) (m : UInt64) (known : Map H256 PoolKey) :
    SameFor s pool (pool.observe addr m known) where
  pending _ := rfl
  queued _ := rfl
  onChain := lookup_insert_ne h
  pendingMax := pendingMax_setOnChain_ne h _ _

theorem sameFor_makePending (pool : Mempool) (m : UInt64) (tx : QueuedTx) :
    SameFor s pool (pool.makePending (addr, m) tx) where
  pending m' := lookup_insert_ne (key_ne h m' m)
  queued _ := rfl
  onChain := rfl
  pendingMax := lookup_insert_ne h

theorem sameFor_dequeue (pool : Mempool) (m : UInt64) :
    SameFor s pool { pool with queued := pool.queued.erase (addr, m) } where
  pending _ := rfl
  queued m' := lookup_erase_ne (key_ne h m' m)
  onChain := rfl
  pendingMax := rfl

end

variable {txs : List SignedTransaction} {count : Nat} {tx : QueuedTx} {ν : Type} {m : UInt64}
  {t : WireTransaction}

theorem sameFor_enqueue (h : s ≠ tx.tx.sender) (pool : Mempool) :
    SameFor s pool (pool.enqueue tx) where
  pending _ := rfl
  queued m := lookup_insert_ne (key_ne h m _)
  onChain := rfl
  pendingMax := rfl

theorem sameFor_confirm {tx : SignedTransaction} (h : s ≠ tx.sender) (pool : Mempool) :
    SameFor s pool (pool.confirm tx) where
  pending m := lookup_erase_ne (key_ne h m _)
  queued m := lookup_erase_ne (key_ne h m _)
  onChain := lookup_insert_ne h
  pendingMax := pendingMax_setOnChain_ne h _ _

theorem sameFor_promoteRounds (h : s ≠ addr) (rounds : Nat) (pool : Mempool) :
    SameFor s pool (promoteRounds addr rounds pool) := by
  induction rounds generalizing pool with
  | zero => exact .refl s pool
  | succ rounds ih =>
    unfold promoteRounds
    dsimp only
    split
    · exact ((sameFor_dequeue h pool _).trans (sameFor_makePending h _ _ _)).trans (ih _)
    · exact .refl s pool

/-! ## Balances -/

/-- The balance also pays for a transaction of this cost with nonce `m`. -/
def Affords (pool : Mempool) (s : Address) (m : UInt64) (cost balance : Nat) : Prop :=
  ∀ ms : Finset UInt64, m ∉ ms → ∑ m' ∈ ms, pool.reserve (s, m') + cost ≤ balance

theorem InStep.affords (h : pool.InStep s nonce balance) (m : UInt64) :
    pool.Affords s m (pool.reserve (s, m)) balance := by
  intro ms hm
  have hsum := h.covered (insert m ms)
  rw [Finset.sum_insert hm] at hsum
  omega

theorem covered_of_affords {cost : Nat} (haffords : pool.Affords s m cost balance)
    (hsame : ∀ m', m' ≠ m → pool'.reserve (s, m') ≤ pool.reserve (s, m'))
    (hcost : pool'.reserve (s, m) ≤ cost) (ms : Finset UInt64) :
    ∑ m' ∈ ms, pool'.reserve (s, m') ≤ balance := by
  have hrest : ∑ m' ∈ ms.erase m, pool'.reserve (s, m') ≤
      ∑ m' ∈ ms.erase m, pool.reserve (s, m') := by
    apply Finset.sum_le_sum
    intro m' hm'
    exact hsame m' (Finset.ne_of_mem_erase hm')
  have hpaid := haffords (ms.erase m) (Finset.notMem_erase m ms)
  by_cases hm : m ∈ ms
  · rw [← Finset.sum_erase_add ms _ hm]
    omega
  · rw [Finset.erase_eq_of_notMem hm] at hrest hpaid
    omega

theorem lookup_le_reserve_pending {slot : PendingSlot}
    (h : pool.pending.lookup (s, m) = some slot) : slotCost slot.tx.tx ≤ pool.reserve (s, m) := by
  unfold reserve weightAt
  rw [h]
  exact Nat.le_max_left _ _

theorem lookup_le_reserve_queued (h : pool.queued.lookup (s, m) = some tx) :
    slotCost tx.tx.tx ≤ pool.reserve (s, m) := by
  unfold reserve weightAt
  rw [h]
  exact Nat.le_max_right _ _

theorem reserve_makePending (pool : Mempool) (m m' : UInt64) (tx : QueuedTx) :
    (pool.makePending (s, m) tx).reserve (s, m') ≤
      if m' = m then max (slotCost tx.tx.tx) (pool.reserve (s, m)) else pool.reserve (s, m') := by
  unfold reserve weightAt makePending
  split
  · rename_i heq
    subst heq
    rw [lookup_insert]
    dsimp only [Option.map, Option.getD]
    omega
  · rename_i hne
    rw [lookup_insert_ne fun heq => hne (Prod.mk.inj heq).2]

variable (pool tx m) in
theorem reserve_enqueue : (pool.enqueue tx).reserve (tx.tx.sender, m) ≤
      if m = tx.tx.tx.nonce then max (slotCost tx.tx.tx) (pool.reserve tx.key)
      else pool.reserve (tx.tx.sender, m) := by
  unfold reserve weightAt enqueue
  split
  · rename_i heq
    subst heq
    rw [show ((tx.tx.sender, tx.tx.tx.nonce) : PoolKey) = tx.key from rfl, lookup_insert]
    dsimp only [Option.map, Option.getD]
    omega
  rename_i hne
  have hkey : ((tx.tx.sender, m) : PoolKey) ≠ tx.key := fun heq => hne (Prod.mk.inj heq).2
  rw [lookup_insert_ne hkey]

/-! ### The check of an admission -/

def senderWeight {ν : Type} (cost : ν → Nat) (addr : Address) (key : PoolKey) (v : ν) : Nat :=
  if key.1 = addr then cost v else 0

variable (cost : ν → Nat)

theorem weightBy_senderWeight (m : Map PoolKey ν) (n : UInt64) :
    weightBy (senderWeight cost s) m (s, n) = weightAt cost m (s, n) := by
  unfold weightBy weightAt senderWeight
  simp only [if_true]

theorem addCosts_eq (addr : Address) (m : Map PoolKey ν) (total : Nat) (htotal : total < 2 ^ 128) :
    addCosts cost addr m total =
      min (total + totalBy (senderWeight cost addr) m) (2 ^ 128 - 1) := by
  unfold addCosts totalBy
  generalize m.entries = entries
  induction entries generalizing total with
  | nil =>
    simp only [foldl_nil, map_nil, sum_nil]
    omega
  | cons e rest ih =>
    simp only [foldl_cons, map_cons, sum_cons]
    unfold senderWeight
    split
    · rw [ih _ (satAddU128_lt _ _)]
      unfold satAddU128 senderWeight
      omega
    · rw [ih _ htotal, Nat.zero_add]
      rfl

theorem senderCumulativeCost_eq (pool : Mempool) (addr : Address) : pool.senderCumulativeCost addr =
      min (totalBy (senderWeight (fun slot => slotCost slot.tx.tx) addr) pool.pending +
        totalBy (senderWeight (fun tx => slotCost tx.tx.tx) addr) pool.queued) (2 ^ 128 - 1) := by
  have hpending := addCosts_eq (fun slot => slotCost slot.tx.tx) addr pool.pending 0 (by decide)
  unfold senderCumulativeCost
  rw [addCosts_eq _ _ _ _ (by omega), hpending]
  omega

theorem sum_weightAt_le (m : Map PoolKey ν) (ms : Finset UInt64) :
    ∑ n ∈ ms, weightAt cost m (s, n) ≤ totalBy (senderWeight cost s) m := by
  have hinj : Set.InjOn (fun n : UInt64 => ((s, n) : PoolKey)) ms :=
    fun a _ b _ heq => (Prod.mk.inj heq).2
  have hsum := sum_weightBy_le (senderWeight cost s) m (ms.image fun n => (s, n))
  rw [Finset.sum_image hinj] at hsum
  exact (Finset.sum_congr rfl fun n _ => (weightBy_senderWeight cost m n).symm).le.trans hsum

theorem replaced_le_reserve (pool : Mempool) (key : PoolKey) :
    ((pool.replaced key).map fun old => slotCost old.1.tx).getD 0 ≤ pool.reserve key := by
  unfold replaced reserve weightAt
  cases pool.pending.lookup key with
  | some slot => exact Nat.le_max_left _ _
  | none =>
    cases pool.queued.lookup key with
    | some tx => exact Nat.le_max_right _ _
    | none => exact Nat.zero_le _

theorem sum_reserve_add_replaced_le (pool : Mempool) {ms : Finset UInt64} (hm : m ∉ ms) :
    ∑ m' ∈ ms, pool.reserve (s, m') +
        ((pool.replaced (s, m)).map fun old => slotCost old.1.tx).getD 0 ≤
      totalBy (senderWeight (fun slot => slotCost slot.tx.tx) s) pool.pending +
        totalBy (senderWeight (fun tx => slotCost tx.tx.tx) s) pool.queued := by
  have hsplit : ∑ m' ∈ insert m ms, pool.reserve (s, m') ≤
      ∑ m' ∈ insert m ms, weightAt (fun slot => slotCost slot.tx.tx) pool.pending (s, m') +
        ∑ m' ∈ insert m ms, weightAt (fun tx => slotCost tx.tx.tx) pool.queued (s, m') := by
    rw [← Finset.sum_add_distrib]
    apply Finset.sum_le_sum
    intro m' _
    unfold reserve
    omega
  have hpending := sum_weightAt_le (s := s) (fun slot => slotCost slot.tx.tx) pool.pending
    (insert m ms)
  have hqueued := sum_weightAt_le (s := s) (fun tx => slotCost tx.tx.tx) pool.queued (insert m ms)
  have hold := pool.replaced_le_reserve (s, m)
  rw [Finset.sum_insert hm] at hsplit
  omega

theorem InStep.affords_of_projected (h : pool.InStep tx.tx.sender nonce balance)
    (hbalance : balance < 2 ^ 128 - 1) (hprojected : pool.projectedCost tx ≤ balance) :
    pool.Affords tx.tx.sender tx.tx.tx.nonce
      (max (slotCost tx.tx.tx) (pool.reserve tx.key)) balance := by
  intro ms hm
  have hold : ∑ m' ∈ ms, pool.reserve (tx.tx.sender, m') + pool.reserve tx.key ≤ balance :=
    h.affords tx.tx.tx.nonce ms hm
  have hpart := pool.sum_reserve_add_replaced_le (s := tx.tx.sender) hm
  have hreplaced := pool.replaced_le_reserve tx.key
  unfold projectedCost at hprojected
  rw [senderCumulativeCost_eq] at hprojected
  unfold satAddU128 at hprojected
  rw [show ((tx.tx.sender, tx.tx.tx.nonce) : PoolKey) = tx.key from rfl] at hpart
  omega

/-! ## Nonces -/

theorem inStep_new (config : MempoolConfig) (s : Address) (nonce balance : Nat) :
    (new config).InStep s nonce balance := by
  have hempty : ∀ m, (new config).reserve (s, m) = 0 := fun _ => rfl
  refine ⟨?_, ?_, ⟨0, ?_, ?_, ?_⟩, ?_⟩
  · intro m slot h
    cases h
  · intro m tx h
    cases h
  · intro m
    constructor
    · intro h
      cases h
    · intro h
      omega
  · intro last h
    cases h
  · intro _
    exact Nat.zero_le _
  intro ms
  rw [Finset.sum_congr rfl fun m _ => hempty m, Finset.sum_const_zero]
  exact Nat.zero_le _

theorem pendingMax_setOnChain {t : NonceTracker} (m : UInt64) (count : Nat)
    (htracked : ∀ last, t.pendingMax.lookup s = some last →
      if last ≤ m then count ≤ 1 else last.toNat + 1 = m.toNat + count)
    (huntracked : t.pendingMax.lookup s = none → count ≤ 1) :
    (∀ last, (t.setOnChain s m).pendingMax.lookup s = some last →
      0 < count ∧ last.toNat + 1 = m.toNat + count) ∧
    ((t.setOnChain s m).pendingMax.lookup s = none → count ≤ 1) := by
  unfold NonceTracker.setOnChain
  cases hlast : t.pendingMax.lookup s with
  | none =>
    rw [hlast]
    refine ⟨?_, fun _ => huntracked hlast⟩
    intro last h
    cases h
  | some last =>
    have hspec := htracked last hlast
    dsimp only
    split
    · rename_i hle
      rw [lookup_erase]
      refine ⟨?_, ?_⟩
      · intro other h
        cases h
      · intro _
        rwa [if_pos hle] at hspec
    rename_i hlt
    rw [if_neg hlt] at hspec
    rw [UInt64.le_iff_toNat_le] at hlt
    rw [hlast]
    refine ⟨?_, ?_⟩
    · intro other h
      cases h
      omega
    · intro h
      cases h

theorem InStep.observe (h : pool.InStep s m.toNat balance) (known : Map H256 PoolKey) :
    (pool.observe s m known).InStep s m.toNat balance := by
  obtain ⟨count, hstretch⟩ := h.stretch
  have htracked : ∀ last, pool.nonceTracker.pendingMax.lookup s = some last →
      if last ≤ m then count ≤ 1 else last.toNat + 1 = m.toNat + count := by
    intro last hlast
    have hspec := hstretch.tracked last hlast
    split
    · rename_i hle
      rw [UInt64.le_iff_toNat_le] at hle
      omega
    · exact hspec.2
  have htracker := pendingMax_setOnChain m count htracked hstretch.untracked
  exact ⟨h.pending, h.queued, ⟨count, hstretch.pending, htracker.1, htracker.2⟩, h.covered⟩

theorem seen_observe (pool : Mempool) (s : Address) (m : UInt64) (known : Map H256 PoolKey) :
    (pool.observe s m known).Seen s m.toNat :=
  ⟨m, lookup_insert _, rfl⟩

theorem Stretch.nextNonce (h : pool.Stretch s nonce count)
    (hfiled : ∀ m slot, pool.pending.lookup (s, m) = some slot → Filed (s, m) slot.tx)
    (hseen : pool.Seen s nonce) : (pool.nonceTracker.nextNonce s).toNat = nonce + count ∨
      (pool.nonceTracker.nextNonce s).toNat = nonce ∧ count = 1 := by
  unfold NonceTracker.nextNonce
  cases hlast : pool.nonceTracker.pendingMax.lookup s with
  | none =>
    obtain ⟨m, hm, hnonce⟩ := hseen
    have hcount := h.untracked hlast
    rw [hm]
    show m.toNat = _ ∨ m.toNat = _ ∧ _
    omega
  | some last =>
    obtain ⟨hpos, hend⟩ := h.tracked last hlast
    -- the last pending nonce is not the largest one, so that its successor does not wrap
    have hsome := (h.pending last).mpr (by omega)
    obtain ⟨slot, hslot⟩ := Option.isSome_iff_exists.mp hsome
    have hfile := hfiled last slot hslot
    have hnonce : slot.tx.tx.nonce = last := hfile.nonce
    have hlt := hfile.nonce_lt
    rw [hnonce] at hlt
    left
    show (last + 1).toNat = nonce + count
    have hsucc : (last + 1).toNat = (last.toNat + 1) % 2 ^ 64 := UInt64.toNat_add last 1
    omega

theorem lookup_makePending_self (pool : Mempool) (key : PoolKey) (tx : QueuedTx) :
    (pool.makePending key tx).pending.lookup key = some ⟨tx.tx, pool.tip tx.tx, tx.gasLimit_le⟩ :=
  lookup_insert _

theorem lookup_makePending_ne {m' : UInt64} (h : m' ≠ m) (pool : Mempool) (tx : QueuedTx) :
    (pool.makePending (s, m) tx).pending.lookup (s, m') = pool.pending.lookup (s, m') :=
  lookup_insert_ne fun heq => h (Prod.mk.inj heq).2

section

variable (h : pool.Stretch s nonce count)
  (hm : m.toNat = nonce + count ∨ m.toNat = nonce ∧ count = 1)

include h hm

theorem Stretch.pendingMax_makePending (tx : QueuedTx) :
    ∃ last, (pool.makePending (s, m) tx).nonceTracker.pendingMax.lookup s = some last ∧
      last.toNat = m.toNat := by
  refine ⟨_, lookup_insert _, ?_⟩
  have hle : ((pool.nonceTracker.pendingMax.lookup s).getD 0).toNat ≤ m.toNat := by
    cases hold : pool.nonceTracker.pendingMax.lookup s with
    | none => exact Nat.zero_le _
    | some last =>
      have hlast := h.tracked last hold
      show last.toNat ≤ m.toNat
      omega
  dsimp only
  split
  · rfl
  rename_i hlt
  rw [UInt64.lt_iff_toNat_lt] at hlt
  omega

theorem Stretch.makePending (tx : QueuedTx) :
    (pool.makePending (s, m) tx).Stretch s nonce (m.toNat + 1 - nonce) := by
  obtain ⟨last, hlast, heq⟩ := h.pendingMax_makePending hm tx
  refine ⟨?_, ?_, ?_⟩
  · intro m'
    by_cases hne : m' = m
    · subst hne
      rw [lookup_makePending_self]
      simp only [Option.isSome_some, true_iff]
      omega
    rw [lookup_makePending_ne hne, h.pending m']
    rw [← UInt64.toNat_inj] at hne
    omega
  · intro other hother
    rw [hlast] at hother
    cases hother
    omega
  · intro hnone
    rw [hlast] at hnone
    cases hnone

end

theorem InStep.makePending (h : pool.InStep s nonce balance) (hseen : pool.Seen s nonce)
    (hnext : m = pool.nonceTracker.nextNonce s) (hfiled : Filed (s, m) tx.tx)
    (haffords : pool.Affords s m (max (slotCost tx.tx.tx) (pool.reserve (s, m))) balance) :
    (pool.makePending (s, m) tx).InStep s nonce balance := by
  obtain ⟨count, hstretch⟩ := h.stretch
  have hm := hstretch.nextNonce h.pending hseen
  rw [← hnext] at hm
  refine ⟨?_, h.queued, ⟨_, hstretch.makePending hm tx⟩, ?_⟩
  · intro m' slot hslot
    rcases FiniteMap.lookup_insert_cases hslot with ⟨hkey, rfl⟩ | hold
    · exact hkey ▸ hfiled
    · exact h.pending m' slot hold
  refine covered_of_affords haffords ?_ ?_
  · intro m' hne
    have hle := reserve_makePending (s := s) pool m m' tx
    rwa [if_neg hne] at hle
  · have hle := reserve_makePending (s := s) pool m m tx
    rwa [if_pos rfl] at hle

/-! ## Promotion -/

theorem reserve_dequeue (pool : Mempool) (key key' : PoolKey) :
    { pool with queued := pool.queued.erase key }.reserve key' ≤ pool.reserve key' := by
  unfold reserve weightAt
  rw [FiniteMap.lookup_erase_eq]
  split
  · dsimp only [Option.map, Option.getD]
    omega
  · exact le_rfl

section

variable (h : pool.InStep s nonce balance)

include h

theorem InStep.dequeue (m : UInt64) :
    { pool with queued := pool.queued.erase (s, m) }.InStep s nonce balance := by
  obtain ⟨count, hstretch⟩ := h.stretch
  refine ⟨h.pending, ?_, ⟨count, hstretch.pending, hstretch.tracked, hstretch.untracked⟩, ?_⟩
  · intro m' tx htx
    exact h.queued m' tx (FiniteMap.lookup_of_erase htx)
  · intro ms
    exact (Finset.sum_le_sum fun m' _ => reserve_dequeue pool (s, m) (s, m')).trans (h.covered ms)

theorem InStep.promote (hseen : pool.Seen s nonce)
    (htx : pool.queued.lookup (s, pool.nonceTracker.nextNonce s) = some tx) :
    ({ pool with queued := pool.queued.erase (s, pool.nonceTracker.nextNonce s) }.makePending
      (s, pool.nonceTracker.nextNonce s) tx).InStep s nonce balance := by
  refine (h.dequeue _).makePending hseen rfl (h.queued _ tx htx) ?_
  intro ms hm
  have hpaid := h.affords (pool.nonceTracker.nextNonce s) ms hm
  have hcost := lookup_le_reserve_queued htx
  have hself := reserve_dequeue pool (s, pool.nonceTracker.nextNonce s)
    (s, pool.nonceTracker.nextNonce s)
  have hrest := Finset.sum_le_sum (s := ms) fun m' _ =>
    reserve_dequeue pool (s, pool.nonceTracker.nextNonce s) (s, m')
  omega

theorem InStep.promoteRounds (hseen : pool.Seen s nonce)
    (rounds : Nat) : (promoteRounds s rounds pool).InStep s nonce balance ∧
      (promoteRounds s rounds pool).Seen s nonce := by
  induction rounds generalizing pool with
  | zero => exact ⟨h, hseen⟩
  | succ rounds ih =>
    unfold promoteRounds
    dsimp only
    split
    · rename_i tx htx
      exact ih (h.promote hseen htx) hseen
    · exact ⟨h, hseen⟩

theorem InStep.promoteQueued (hseen : s = addr → pool.Seen s nonce) :
    (pool.promoteQueued addr).InStep s nonce balance := by
  by_cases hs : s = addr
  · subst hs
    exact (h.promoteRounds (hseen rfl) 256).1
  · exact (sameFor_promoteRounds hs 256 pool).inStep h

end

/-! ## Admission -/

theorem InStep.enqueue (h : pool.InStep tx.tx.sender nonce balance) (hfiled : Filed tx.key tx.tx)
    (haffords : pool.Affords tx.tx.sender tx.tx.tx.nonce
      (max (slotCost tx.tx.tx) (pool.reserve tx.key)) balance) :
    (pool.enqueue tx).InStep tx.tx.sender nonce balance := by
  obtain ⟨count, hstretch⟩ := h.stretch
  refine ⟨h.pending, ?_, ⟨count, hstretch.pending, hstretch.tracked, hstretch.untracked⟩, ?_⟩
  · intro m queued hqueued
    rcases FiniteMap.lookup_insert_cases hqueued with ⟨hkey, rfl⟩ | hold
    · exact hkey ▸ hfiled
    · exact h.queued m queued hold
  refine covered_of_affords haffords ?_ ?_
  · intro m hne
    have hle := reserve_enqueue pool tx m
    rwa [if_neg hne] at hle
  · have hle := reserve_enqueue pool tx tx.tx.tx.nonce
    rwa [if_pos rfl] at hle

variable (recover : H256 → Signature → Except String Address)

theorem sameFor_addTransaction (pool : Mempool) (h : s ≠ t.sender) (senderBalance : Nat)
    (m : UInt64) : SameFor s pool (pool.addTransaction recover t senderBalance m).2 := by
  rcases pool.addTransaction_cases recover t senderBalance m with hsame | ⟨known, hcases⟩
  · rw [hsame]
    exact .refl s pool
  have hobserve := sameFor_observe h pool m known
  rcases hcases with hpool | ⟨tx, hpasses, hpool | ⟨-, hpool⟩⟩
  · rw [hpool]
    exact hobserve
  · have hsender : s ≠ tx.tx.sender := by rwa [hpasses.tx_eq]
    rw [hpool]
    exact hobserve.trans (sameFor_enqueue hsender _)
  have hsender : s ≠ tx.tx.sender := by rwa [hpasses.tx_eq]
  rw [hpool]
  exact (hobserve.trans (sameFor_makePending hsender _ _ _)).trans
    (sameFor_promoteRounds h 256 _)

theorem InStep.addTransaction (h : pool.InStep t.sender m.toNat balance)
    (hbalance : balance < 2 ^ 128 - 1) (hnonce : t.tx.nonce.toNat + 1 < 2 ^ 64) :
    (pool.addTransaction recover t balance m).2.InStep t.sender m.toNat balance := by
  rcases pool.addTransaction_cases recover t balance m with hsame | ⟨known, hcases⟩
  · rw [hsame]
    exact h
  have hobserve := h.observe known
  rcases hcases with hpool | ⟨tx, hpasses, hpool⟩
  · rw [hpool]
    exact hobserve
  have hfiled : Filed tx.key tx.tx :=
    ⟨rfl, rfl, hpasses.tx_eq ▸ hpasses.gas_le, hpasses.tx_eq ▸ hnonce⟩
  have hsender : tx.tx.sender = t.sender := by rw [hpasses.tx_eq]; rfl
  have htx : tx.tx.tx.nonce = t.tx.nonce := by rw [hpasses.tx_eq]; rfl
  rw [← hsender] at hobserve ⊢
  have haffords := hobserve.affords_of_projected hbalance (hsender ▸ hpasses.projected)
  rcases hpool with hpool | ⟨hnext, hpool⟩ <;> rw [hpool, ← hsender]
  · exact hobserve.enqueue hfiled haffords
  rw [← hsender, ← htx] at hnext
  exact (hobserve.makePending (seen_observe _ _ _ _) hnext hfiled haffords).promoteQueued
    fun _ => seen_observe pool tx.tx.sender m known

/-! ## Confirmation -/

theorem reserve_confirm (pool : Mempool) (tx : SignedTransaction) (m : UInt64) :
    (pool.confirm tx).reserve (tx.sender, m) =
      if m = tx.tx.nonce then 0 else pool.reserve (tx.sender, m) := by
  unfold reserve weightAt confirm
  split
  · rename_i heq
    subst heq
    rw [lookup_erase, lookup_erase]
    rfl
  rename_i hne
  have hkey : ((tx.sender, m) : PoolKey) ≠ (tx.sender, tx.tx.nonce) :=
    fun heq => hne (Prod.mk.inj heq).2
  rw [lookup_erase_ne hkey, lookup_erase_ne hkey]

variable {tx : SignedTransaction}

theorem lookup_confirm (pool : Mempool) (m : UInt64) :
    (pool.confirm tx).pending.lookup (tx.sender, m) =
      if m = tx.tx.nonce then none else pool.pending.lookup (tx.sender, m) := by
  refine (FiniteMap.lookup_erase_eq pool.pending _ _).trans ?_
  simp

theorem Stretch.confirm (h : pool.Stretch tx.sender tx.tx.nonce.toNat count)
    (hlt : tx.tx.nonce.toNat + 1 < 2 ^ 64) :
    (pool.confirm tx).Stretch tx.sender (tx.tx.nonce.toNat + 1) (count - 1) := by
  have hsucc : (tx.tx.nonce + 1).toNat = tx.tx.nonce.toNat + 1 := by
    rw [UInt64.toNat_add]
    exact Nat.mod_eq_of_lt hlt
  have htracked : ∀ last, pool.nonceTracker.pendingMax.lookup tx.sender = some last →
      if last ≤ tx.tx.nonce + 1 then count - 1 ≤ 1
      else last.toNat + 1 = (tx.tx.nonce + 1).toNat + (count - 1) := by
    intro last hlast
    have hspec := h.tracked last hlast
    split
    · rename_i hle
      rw [UInt64.le_iff_toNat_le, hsucc] at hle
      omega
    · rw [hsucc]
      omega
  have huntracked : pool.nonceTracker.pendingMax.lookup tx.sender = none → count - 1 ≤ 1 := by
    intro hnone
    have hcount := h.untracked hnone
    omega
  have htracker := pendingMax_setOnChain (tx.tx.nonce + 1) (count - 1) htracked huntracked
  rw [hsucc] at htracker
  refine ⟨?_, htracker.1, htracker.2⟩
  intro m
  rw [lookup_confirm]
  split
  · rename_i hm
    simp only [hm, Option.isSome_none, Bool.false_eq_true, false_iff]
    omega
  rename_i hm
  rw [h.pending m]
  rw [← UInt64.toNat_inj] at hm
  omega

theorem InStep.confirm (h : pool.InStep tx.sender tx.tx.nonce.toNat balance)
    (hlt : tx.tx.nonce.toNat + 1 < 2 ^ 64) :
    (pool.confirm tx).InStep tx.sender (tx.tx.nonce.toNat + 1)
      (balance - pool.reserve (tx.sender, tx.tx.nonce)) := by
  obtain ⟨count, hstretch⟩ := h.stretch
  refine ⟨?_, ?_, ⟨count - 1, hstretch.confirm hlt⟩, ?_⟩
  · intro m slot hslot
    exact h.pending m slot (FiniteMap.lookup_of_erase hslot)
  · intro m queued hqueued
    exact h.queued m queued (FiniteMap.lookup_of_erase hqueued)
  have haffords : pool.Affords tx.sender tx.tx.nonce 0
      (balance - pool.reserve (tx.sender, tx.tx.nonce)) := by
    intro ms hm
    have hpaid := h.affords tx.tx.nonce ms hm
    omega
  apply covered_of_affords haffords
  · intro m hm
    rw [reserve_confirm, if_neg hm]
  · rw [reserve_confirm, if_pos rfl]

theorem seen_confirm (pool : Mempool) (hlt : tx.tx.nonce.toNat + 1 < 2 ^ 64) :
    (pool.confirm tx).Seen tx.sender (tx.tx.nonce.toNat + 1) := by
  refine ⟨tx.tx.nonce + 1, lookup_insert _, ?_⟩
  rw [UInt64.toNat_add]
  exact Nat.mod_eq_of_lt hlt

def reservedFor (pool : Mempool) (s : Address) (txs : List SignedTransaction) : Nat :=
  ((ofSender s txs).map fun tx => pool.reserve (s, tx.tx.nonce)).sum

theorem reservedFor_confirm (h : Consecutive tx.sender (tx.tx.nonce.toNat + 1) txs)
    (pool : Mempool) :
    (pool.confirm tx).reservedFor tx.sender txs = pool.reservedFor tx.sender txs := by
  refine congrArg sum (map_congr_left fun other hother => ?_)
  have hmem := mem_map_of_mem (f := fun tx : SignedTransaction => tx.tx.nonce.toNat) hother
  rw [h, mem_range'_1] at hmem
  rw [reserve_confirm, if_neg]
  intro heq
  rw [heq] at hmem
  omega

theorem InStep.confirms (h : pool.InStep s nonce balance) (hnonces : Consecutive s nonce txs)
    (hend : nonce + (ofSender s txs).length < 2 ^ 64) :
    (txs.foldl Mempool.confirm pool).InStep s (nonce + (ofSender s txs).length)
        (balance - pool.reservedFor s txs) ∧ (pool.Seen s nonce ∨ 0 < (ofSender s txs).length →
        (txs.foldl Mempool.confirm pool).Seen s (nonce + (ofSender s txs).length)) := by
  induction txs generalizing pool nonce balance with
  | nil => exact ⟨h, fun hseen => hseen.resolve_right (Nat.lt_irrefl 0)⟩
  | cons tx txs ih =>
    rw [foldl_cons]
    by_cases hs : tx.sender = s
    · subst hs
      obtain ⟨hnonce, hrest⟩ := consecutive_cons_self.mp hnonces
      rw [ofSender_cons_self, length_cons] at hend ⊢
      subst hnonce
      have hlt : tx.tx.nonce.toNat + 1 < 2 ^ 64 := by omega
      obtain ⟨hin, hseen⟩ := ih (h.confirm hlt) hrest (by omega)
      have hlen : tx.tx.nonce.toNat + ((ofSender tx.sender txs).length + 1) =
          tx.tx.nonce.toNat + 1 + (ofSender tx.sender txs).length := by omega
      have hreserved : pool.reservedFor tx.sender (tx :: txs) =
          pool.reserve (tx.sender, tx.tx.nonce) + pool.reservedFor tx.sender txs := by
        unfold reservedFor
        rw [ofSender_cons_self, map_cons, sum_cons]
      rw [reservedFor_confirm hrest, Nat.sub_sub] at hin
      rw [hlen, hreserved]
      exact ⟨hin, fun _ => hseen (.inl (seen_confirm pool hlt))⟩
    · have hsame := sameFor_confirm (Ne.symm hs) pool
      have hreserved : (pool.confirm tx).reservedFor s txs = pool.reservedFor s (tx :: txs) := by
        unfold reservedFor
        rw [ofSender_cons_ne hs]
        exact congrArg sum (map_congr_left fun other _ => hsame.reserve_eq _)
      rw [ofSender_cons_ne hs] at hend ⊢
      rw [← hreserved]
      obtain ⟨hin, hseen⟩ := ih (hsame.inStep h) ((consecutive_cons_ne hs).mp hnonces) hend
      exact ⟨hin, fun hor => hseen (hor.imp_left hsame.seen)⟩

theorem InStep.promoteAll {senders : List Address} (h : pool.InStep s nonce balance)
    (hseen : s ∈ senders → pool.Seen s nonce) :
    (senders.foldl Mempool.promoteQueued pool).InStep s nonce balance := by
  induction senders generalizing pool with
  | nil => exact h
  | cons addr rest ih =>
    refine ih (h.promoteQueued fun hs => hseen (hs ▸ mem_cons_self)) ?_
    intro hmem
    have hbefore := hseen (mem_cons_of_mem addr hmem)
    by_cases hs : s = addr
    · subst hs
      exact (h.promoteRounds hbefore 256).2
    · exact (sameFor_promoteRounds hs 256 pool).seen hbefore

theorem InStep.removeConfirmed (h : pool.InStep s nonce balance) (hnonces : Consecutive s nonce txs)
    (hend : nonce + (ofSender s txs).length < 2 ^ 64) :
    (pool.removeConfirmed txs).InStep s (nonce + (ofSender s txs).length)
      (balance - pool.reservedFor s txs) := by
  obtain ⟨hin, hseen⟩ := h.confirms hnonces hend
  refine hin.promoteAll fun hmem => hseen (.inr ?_)
  obtain ⟨tx, htx, hsender⟩ := mem_map.mp hmem
  exact length_pos_of_mem (mem_filter.mpr ⟨htx, decide_eq_true hsender⟩)

end Mempool

/-! ## Runs -/

structure PoolNode where
  db : ZbxDb
  pool : Mempool

/-- An admission comes with what the caller says of the sender's account. A commit brings a new
stored state, and the header and the transactions of the block. -/
inductive PoolEvent where
  | submit (t : WireTransaction) (senderBalance : Nat) (senderOnChainNonce : UInt64)
  | commit (db : ZbxDb) (header : BlockHeader) (txs : List SignedTransaction)

namespace PoolNode

def start (config : MempoolConfig) (db : ZbxDb) : PoolNode := ⟨db, .new config⟩

def step (recover : H256 → Signature → Except String Address) (node : PoolNode) :
    PoolEvent → PoolNode
  | .submit t senderBalance senderOnChainNonce =>
    { node with pool := (node.pool.addTransaction recover t senderBalance senderOnChainNonce).2 }
  | .commit db header txs => ⟨db, (node.pool.updateBaseFee header).removeConfirmed txs⟩

/-- The nonce and the balance of a sender follow from those before by the transactions of a
block. The balance goes down by what was reserved for them at most. -/
structure Follows (node : PoolNode) (db : ZbxDb) (txs : List SignedTransaction) (s : Address) :
    Prop where
  consecutive : Consecutive s (node.db.getAccount s).nonce.toNat txs
  nonce : (db.getAccount s).nonce.toNat =
    (node.db.getAccount s).nonce.toNat + (ofSender s txs).length
  balance : (node.db.getAccount s).balanceU128 ≤
    (db.getAccount s).balanceU128 + node.pool.reservedFor s txs

/-- Admissions are told the stored account, and stored nonces and balances change by blocks
only. Neither the nonce nor the balance is the largest of its type. -/
def Regular (node : PoolNode) : PoolEvent → Prop
  | .submit t senderBalance senderOnChainNonce =>
    senderBalance = (node.db.getAccount t.sender).balanceU128 ∧
      senderOnChainNonce = (node.db.getAccount t.sender).nonce ∧
      senderBalance < 2 ^ 128 - 1 ∧ t.tx.nonce.toNat + 1 < 2 ^ 64
  | .commit db _ txs => ∀ s, Follows node db txs s

def InStep (node : PoolNode) : Prop :=
  ∀ s, node.pool.InStep s (node.db.getAccount s).nonce.toNat (node.db.getAccount s).balanceU128

variable {recover : H256 → Signature → Except String Address} {node : PoolNode}

theorem InStep.step (h : node.InStep) {event : PoolEvent} (hevent : node.Regular event) :
    (node.step recover event).InStep := by
  intro s
  cases event with
  | submit t senderBalance senderOnChainNonce =>
    obtain ⟨rfl, rfl, hbalance, hnonce⟩ := hevent
    by_cases hs : s = t.sender
    · subst hs
      exact (h t.sender).addTransaction recover hbalance hnonce
    · exact (sameFor_addTransaction recover node.pool hs _ _).inStep (h s)
  | commit db header txs =>
    obtain ⟨hnonces, hnonce, hbalance⟩ := hevent s
    have hfee : SameFor s node.pool (node.pool.updateBaseFee header) :=
      ⟨fun _ => rfl, fun _ => rfl, rfl, rfl⟩
    have hend : (node.db.getAccount s).nonce.toNat + (ofSender s txs).length < 2 ^ 64 := by
      rw [← hnonce]
      exact (db.getAccount s).nonce.toNat_lt
    have hremoved := (hfee.inStep (h s)).removeConfirmed hnonces hend
    rw [← hnonce] at hremoved
    have hreserved : (node.pool.updateBaseFee header).reservedFor s txs =
        node.pool.reservedFor s txs := rfl
    apply hremoved.mono
    show _ ≤ (db.getAccount s).balanceU128
    omega

theorem inStep_of_meets {config : MempoolConfig} {db : ZbxDb} {events : List PoolEvent}
    (h : Meets (step recover) Regular (start config db) events) :
    (events.foldl (step recover) (start config db)).InStep :=
  foldl_of_meets (fun _ _ hnode hevent => InStep.step hnode hevent)
    (fun s => inStep_new config s _ _) h

end PoolNode

end ZbxChain
