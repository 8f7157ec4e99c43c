import Mathlib.Algebra.Group.Action.Defs
import Mathlib.Data.BitVec
import ZbxChain.Execution.Supply
import ZbxChain.Node.Commit

/-!
# The cap on the supply

The block rewards of `zbx-types/src/lib.rs` against `TOTAL_SUPPLY`, after the allocations of
`node/src/genesis.rs`. Nothing in the halving schedule refers to the cap.
-/

namespace ZbxChain

open Finset

inductive Network
  | mainnet
  | testnet
  deriving DecidableEq

/-- The balances of `GenesisConfig::mainnet` and `GenesisConfig::testnet`; the last one is that
of the vault registry. -/
def genesisAlloc : Network → List Nat
  | .mainnet => [totalSupply / 10, totalSupply * 4 / 10, totalSupply * 3 / 10, 0]
  | .testnet => [totalSupply / 5, totalSupply / 5, 0]

def genesisPremine (net : Network) : Nat := (genesisAlloc net).sum

def cappedBlocks : Network → Nat
  | .mainnet => 15000000
  | .testnet => 45000000

theorem premine_add_capped (net : Network) :
    genesisPremine net + cappedBlocks net * initialBlockReward = totalSupply := by
  cases net <;> decide

theorem blockRewardAt_le (height : Nat) : blockRewardAt height ≤ initialBlockReward := by
  unfold blockRewardAt
  dsimp only
  split
  · exact Nat.zero_le _
  · rw [Nat.shiftRight_eq_div_pow]
    exact Nat.div_le_self _ _

theorem blockRewardAt_first {height : Nat} (h : height < halvingInterval) :
    blockRewardAt height = initialBlockReward := by
  unfold blockRewardAt
  rw [Nat.div_eq_of_lt h]
  rfl

theorem sum_reward_le (S : Finset Nat) :
    ∑ n ∈ S, blockRewardAt n ≤ S.card * initialBlockReward := by
  refine (sum_le_card_nsmul S _ initialBlockReward fun n _ => blockRewardAt_le n).trans ?_
  rw [smul_eq_mul]

theorem sum_reward_range {count : Nat} (h : count ≤ halvingInterval) :
    ∑ n ∈ range count, blockRewardAt n = count * initialBlockReward := by
  rw [sum_congr rfl fun n hn =>
    blockRewardAt_first (Nat.lt_of_lt_of_le (mem_range.mp hn) h)]
  rw [sum_const, card_range, smul_eq_mul]

/-- The premine and the rewards of any heights below `bound` stay within the cap just when
`bound` is at most the number of blocks that there is room for. -/
theorem supply_within_cap_iff (net : Network) (bound : Nat) :
    (∀ S : Finset Nat, (∀ n ∈ S, n < bound) →
      genesisPremine net + ∑ n ∈ S, blockRewardAt n ≤ totalSupply) ↔ bound ≤ cappedBlocks net := by
  have hroom := premine_add_capped net
  constructor
  · intro h
    by_contra hlt
    have hle : ∀ n ∈ range (cappedBlocks net + 1), n < bound := by
      intro n hn
      have := mem_range.mp hn
      omega
    have hcap := h _ hle
    rw [sum_reward_range (by cases net <;> decide), ← hroom, Nat.succ_mul] at hcap
    have hpos : 0 < initialBlockReward := by decide
    omega
  · intro hbound S hS
    have hcard : S.card ≤ bound := by
      have hsub : S ⊆ range bound := fun n hn => mem_range.mpr (hS n hn)
      simpa using card_le_card hsub
    have hsum := (sum_reward_le S).trans
      (Nat.mul_le_mul_right initialBlockReward (hcard.trans hbound))
    omega

/-- The rewards up to the first halving are above the cap of the mainnet. -/
theorem first_epoch_above_cap : ∑ n ∈ range halvingInterval, blockRewardAt n = 126144000 * 10 ^ 18 ∧
      genesisPremine .mainnet = 120000000 * 10 ^ 18 ∧
      totalSupply < genesisPremine .mainnet + ∑ n ∈ range halvingInterval, blockRewardAt n := by
  rw [sum_reward_range (le_rfl)]
  decide

end ZbxChain

/-!
## Issuance

A commit raises the sum of the stored balances by at most the block reward
(`commit_supply_le`), unless a sender's cost overflows a `u128` or a deletion drops less
than storage keeps: the stored record of a deleted account is never removed, so a contract
that is created at an address with a stored balance and destructs itself pays that balance
out a second time (`destruct_mints`).
-/

namespace ZbxChain.BlockProducer

open StateView

variable {E : Engines} {db : ZbxDb} {vs : Option ValidatorSet} {block : Block} {c : Committed}
  {st : BlockState}

theorem seededFrom_seededView (db : ZbxDb) (block : Block) :
    SeededFrom db.state (seededView db block) := by
  intro addr acct hlookup
  have hs := seeded_seeding db block
  unfold seededView at hlookup
  by_cases hseen : addr ∈ (seeding db block).seen
  · rw [hs.base_seen addr hseen] at hlookup
    exact (Option.some.inj hlookup).symm
  · rw [hs.base_unseen addr hseen] at hlookup
    cases hlookup

theorem heldSupply_seededView (db : ZbxDb) (block : Block) :
    heldSupply db.state (seededView db block) = supply db.state := by
  unfold heldSupply held seededView
  rw [(seeded_seeding db block).diffs]
  rfl

def deletionsOf (E : Engines) (db : ZbxDb) (vs : Option ValidatorSet) (block : Block) :
    List Deletion :=
  blockDeletions E block.header db (.start (seededView db block) vs) block.transactions

theorem commit_supply_le (h : executeAndCommit E db vs block = .ok c)
    (hfits : ∀ tx ∈ block.transactions, tx.tx.maxCost + tx.tx.valueU128 < 2 ^ 128)
    (hcovered : ∀ d ∈ deletionsOf E db vs block, d.Covered db.state) :
    supply c.db.state ≤ supply db.state + blockRewardAt block.header.number.toNat := by
  obtain ⟨st, hst⟩ := executeAndCommit_ok h
  obtain ⟨st', htxs, rfl⟩ := executeBody_ok hst.body
  have hseeded : SeededFrom db.state (BlockState.start (seededView db block) vs).view :=
    seededFrom_seededView db block
  have hrun := executeTxs_heldSupply_le hseeded hfits hcovered htxs
  have hreward := payReward_heldSupply_le ((executeTxs_reaches htxs).seededFrom hseeded)
    block.header
  have hstart := heldSupply_seededView db block
  rw [hst.state]
  exact Nat.le_trans hreward (Nat.add_le_add_right (Nat.le_trans hrun (Nat.le_of_eq hstart)) _)

def destructCode : Bytes := [0x5a, 0x33, 0xff]

def destructBlock : Block := .first [.basic 0xa1 0 none 0 destructCode]

instance (stored : Map Address AccountState) (d : Deletion) : Decidable (d.Covered stored) :=
  inferInstanceAs (Decidable (_ ≤ _))

theorem commit_supply_le_destruct :
    (deletionsOf .idle fundedDb none destructBlock).map (·.addr) = [createTxAddress 0xa1 0] ∧
    ∃ c, executeAndCommit .idle fundedDb none destructBlock = .ok c ∧
      supply c.db.state ≤ supply fundedDb.state + blockRewardAt 1 := by
  refine ⟨by decide +kernel, exists_ok (by decide +kernel) fun c hc => ?_⟩
  exact commit_supply_le hc (by decide +kernel) (by decide +kernel)

/-- The address of the second contract of `0xa1` has a balance before the contract exists. -/
def prefundedDb : ZbxDb :=
  fundedDb.putAccount (createTxAddress 0xa1 1) { AccountState.default with balance := 10 ^ 9 }

/-- A transfer of nothing loads that account; then the contract is created there. -/
def mintBlock : Block :=
  .first [.basic 0xa1 0 (some (createTxAddress 0xa1 1)) 0 [], .basic 0xa1 1 none 0 destructCode]

/-- The balance goes to the caller and stays in storage as well. -/
theorem destruct_mints : ∃ c, executeAndCommit .idle prefundedDb none mintBlock = .ok c ∧
    (c.db.getAccount (createTxAddress 0xa1 1)).balance = 10 ^ 9 ∧
    (c.db.getAccount 0xa1).balance.toNat ≥ 10 ^ 9 ∧
    supply prefundedDb.state + blockRewardAt 1 < supply c.db.state := by
  decide +kernel

end ZbxChain.BlockProducer
