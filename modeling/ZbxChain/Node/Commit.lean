import ZbxChain.Execution.Reach
import ZbxChain.Lib.FiniteMap

/-!
# Committing a block

`execute_and_commit_inner` of `node/src/block_producer.rs`: seed a view from the database,
execute the block on it, and write the outcome back. Of the state diff only the accounts
are written. The mempool and the governance registries, which are updated after the last
write that is modelled here, are left out.
-/

namespace ZbxChain

namespace BlockProducer

/-! ## Seeding -/

variable (db : ZbxDb)

def loadAccount (view : StateView) (addr : Address) : StateView :=
  let acct := db.getAccount addr
  let view := if acct.isContract then view.seedCode acct.codeHash (db.getCode acct.codeHash)
    else view
  view.seedAccount addr acct

structure Seeding where
  view : StateView
  seen : Finset Address

def seed (s : Seeding) (addr : Address) : Seeding :=
  if addr ∈ s.seen then s else ⟨loadAccount db s.view addr, insert addr s.seen⟩

def seedTx (s : Seeding) (tx : SignedTransaction) : Seeding :=
  let s := seed db s tx.sender
  match tx.tx.dest with
  | some dest => seed db s dest
  | none => s

def seeding (block : Block) : Seeding :=
  seed db (block.transactions.foldl (seedTx db) ⟨.new, ∅⟩) block.header.coinbase

def seededView (block : Block) : StateView := (seeding db block).view

/-! ## Committing -/

def patchHeader (header : BlockHeader) (exec : ExecutionResult) : BlockHeader :=
  { header with gasUsed := UInt64.ofNat exec.gasUsed, stateRoot := exec.newStateRoot }

def putAccounts (accounts : Map Address AccountState) : ZbxDb :=
  accounts.entries.foldl (fun db e => db.putAccount e.1 e.2) db

def flushStaking (delta : StakingDelta) : ZbxDb :=
  if delta.isEmpty then db
  else db.applyStakingDelta delta.delegations.entries delta.unbondingPuts.entries
    delta.unbondingDeletes.entries

/-- The writes of a committed block: accounts, trie nodes, the block, the staking delta. -/
def persist (adapter : ZbxDbTrieAdapter) (block : Block) (exec : ExecutionResult) : ZbxDb :=
  let db := putAccounts db exec.stateDiff.accounts
  let db := { adapter with db := db }.commit.db
  let db := db.putBlock block
  flushStaking db exec.stakingDelta

/-- The outcome of a commit: the block with its header filled in, the database and the
validator set. -/
structure Committed where
  block : Block
  db : ZbxDb
  vs : Option ValidatorSet

/-- `execute_and_commit` without a validator set, `execute_and_commit_with_validator_set`
with one. -/
def executeAndCommit (E : Engines) (db : ZbxDb) (vs : Option ValidatorSet) (block : Block) :
    Except (Fault String) Committed :=
  let adapter := ZbxDbTrieAdapter.new db
  match executeBlock E block db vs adapter (seededView db block) with
  | .error (.err e) => .error (.err ("execute: " ++ e.display))
  | .error .panic => .error .panic
  | .ok exec =>
    let parent := block.header.number.toNat - 1
    let head := (db.getLatestBlockNumber.getD 0).toNat
    if head ≠ parent then
      .error (.err ("reorg detected: expected head " ++ toString parent ++ ", got " ++
        toString head ++ " — dropping candidate"))
    else
      let block := { block with header := patchHeader block.header exec }
      .ok ⟨block, persist db adapter block exec, exec.vs⟩

def fundedDb : ZbxDb :=
  .putAccount .empty 0xa1 { AccountState.default with balance := 1000000 }

end BlockProducer

end ZbxChain

/-! ## What a commit reads and writes -/

namespace ZbxChain.BlockProducer

open FiniteMap StateView Finset ZbxDbTrieAdapter

/-! ## Seeding -/

structure Seeded (db : ZbxDb) (s : Seeding) : Prop where
  base_seen : ∀ addr ∈ s.seen, s.view.base.lookup addr = some (db.getAccount addr)
  base_unseen : ∀ addr ∉ s.seen, s.view.base.lookup addr = none
  code_seen : ∀ addr ∈ s.seen, (db.getAccount addr).isContract = true →
    s.view.codes.lookup (db.getAccount addr).codeHash =
      some (db.getCode (db.getAccount addr).codeHash)
  code_stored : ∀ codeHash code, s.view.codes.lookup codeHash = some code →
    code = db.getCode codeHash
  diffs : s.view.diffs = ⟨∅, ∅, [], []⟩
  toDelete : s.view.toDelete = ∅

variable {db : ZbxDb}

theorem seeded_new : Seeded db ⟨.new, ∅⟩ where
  base_seen addr h := absurd h (notMem_empty addr)
  base_unseen addr _ := AList.lookup_empty addr
  code_seen addr h := absurd h (notMem_empty addr)
  code_stored codeHash code h := by
    rw [show (new.codes.lookup codeHash) = none from AList.lookup_empty codeHash] at h
    cases h
  diffs := rfl
  toDelete := rfl

theorem lookup_codes_loadAccount (view : StateView) (addr : Address) (codeHash : H256) :
    (loadAccount db view addr).codes.lookup codeHash =
      if (db.getAccount addr).isContract ∧ codeHash = (db.getAccount addr).codeHash then
        some (db.getCode codeHash) else view.codes.lookup codeHash := by
  unfold loadAccount
  by_cases hc : (db.getAccount addr).isContract = true
  · by_cases h : codeHash = (db.getAccount addr).codeHash
    · subst h
      simp [hc, seedCode, seedAccount]
    · simp [hc, h, seedCode, seedAccount, AList.lookup_insert_ne]
  · simp [hc, seedAccount]

theorem loadAccount_base (view : StateView) (addr : Address) :
    (loadAccount db view addr).base = view.base.insert addr (db.getAccount addr) := by
  unfold loadAccount
  dsimp only
  split <;> rfl

theorem loadAccount_rest (view : StateView) (addr : Address) :
    (loadAccount db view addr).diffs = view.diffs ∧
      (loadAccount db view addr).toDelete = view.toDelete := by
  unfold loadAccount
  dsimp only
  split <;> exact ⟨rfl, rfl⟩

variable {addr : Address} {block : Block} {c : Committed} {E : Engines} {vs : Option ValidatorSet}
  {s : Seeding} {tx : SignedTransaction} {db : ZbxDb}

theorem Seeded.seed (h : Seeded db s) (addr : Address) : Seeded db (seed db s addr) := by
  unfold BlockProducer.seed
  split
  · exact h
  refine ⟨?_, ?_, ?_, ?_, (loadAccount_rest _ _).1.trans h.diffs,
    (loadAccount_rest _ _).2.trans h.toDelete⟩
  · intro other hother
    rw [loadAccount_base, FiniteMap.lookup_insert_eq]
    split
    · rename_i ha
      rw [ha]
    · rename_i ha
      exact h.base_seen other ((mem_insert.mp hother).resolve_left ha)
  · intro other hother
    rw [mem_insert, not_or] at hother
    rw [loadAccount_base, AList.lookup_insert_ne hother.1]
    exact h.base_unseen other hother.2
  · intro other hother hcontract
    rw [lookup_codes_loadAccount]
    split
    · rfl
    rename_i hne
    rcases mem_insert.mp hother with rfl | hmem
    · exact absurd ⟨hcontract, rfl⟩ hne
    · exact h.code_seen other hmem hcontract
  · intro codeHash code hlookup
    rw [lookup_codes_loadAccount] at hlookup
    split at hlookup
    · exact (Option.some.inj hlookup).symm
    · exact h.code_stored codeHash code hlookup

theorem Seeded.seedTx (h : Seeded db s) (tx : SignedTransaction) : Seeded db (seedTx db s tx) := by
  unfold BlockProducer.seedTx
  split
  · exact (h.seed _).seed _
  · exact h.seed _

theorem Seeded.foldl (h : Seeded db s) (txs : List SignedTransaction) :
    Seeded db (txs.foldl (BlockProducer.seedTx db) s) := by
  induction txs generalizing s with
  | nil => exact h
  | cons tx rest ih => exact ih (h.seedTx tx)

theorem seeded_seeding (db : ZbxDb) (block : Block) : Seeded db (seeding db block) :=
  (seeded_new.foldl block.transactions).seed _

/-! ### The addresses that are loaded -/

theorem seen_seed (s : Seeding) (addr : Address) : (seed db s addr).seen = insert addr s.seen := by
  unfold seed
  split
  · exact (insert_eq_self.mpr ‹_›).symm
  · rfl

variable (s tx) in
theorem seen_subset_seedTx : s.seen ⊆ (seedTx db s tx).seen := by
  unfold seedTx
  split
  · rw [seen_seed, seen_seed]
    exact (subset_insert _ _).trans (subset_insert _ _)
  · rw [seen_seed]
    exact subset_insert _ _

variable (s tx) in
theorem sender_mem_seedTx : tx.sender ∈ (seedTx db s tx).seen := by
  unfold seedTx
  split
  · rw [seen_seed, seen_seed]
    exact mem_insert_of_mem (mem_insert_self _ _)
  · rw [seen_seed]
    exact mem_insert_self _ _

theorem seen_subset_foldl (s : Seeding) (txs : List SignedTransaction) :
    s.seen ⊆ (txs.foldl (seedTx db) s).seen := by
  induction txs generalizing s with
  | nil => exact fun _ h => h
  | cons tx rest ih => exact (seen_subset_seedTx s tx).trans (ih _)

theorem mem_seen_of_mem (htx : tx ∈ block.transactions)
    (haddr : tx.sender = addr ∨ tx.tx.dest = some addr) : addr ∈ (seeding db block).seen := by
  unfold seeding
  rw [seen_seed]
  refine mem_insert_of_mem ?_
  generalize (⟨.new, ∅⟩ : Seeding) = s
  revert htx
  generalize block.transactions = txs
  intro htx
  induction txs generalizing s with
  | nil => cases htx
  | cons tx' rest ih =>
    rcases List.mem_cons.mp htx with rfl | hrest
    · refine seen_subset_foldl _ rest ?_
      rcases haddr with rfl | hdest
      · exact sender_mem_seedTx s tx
      unfold seedTx
      rw [hdest, seen_seed]
      exact mem_insert_self _ _
    · exact ih _ hrest

theorem coinbase_mem_seen (db : ZbxDb) (block : Block) :
    block.header.coinbase ∈ (seeding db block).seen := by
  unfold seeding
  rw [seen_seed]
  exact mem_insert_self _ _

theorem getAccount_seededView (h : addr ∈ (seeding db block).seen) :
    (seededView db block).getAccount addr = db.getAccount addr := by
  have hs := seeded_seeding db block
  unfold getAccount record seededView
  rw [hs.toDelete, hs.diffs, hs.base_seen addr h]
  simp

/-! ## Committing -/

theorem putAccounts_eq (db : ZbxDb) (accounts : Map Address AccountState) :
    putAccounts db accounts = { db with state := insertAll db.state accounts.entries } := by
  unfold putAccounts insertAll
  generalize accounts.entries = entries
  induction entries generalizing db with
  | nil => rfl
  | cons e rest ih => exact ih _

structure CommitSpec (E : Engines) (db : ZbxDb) (vs : Option ValidatorSet) (block : Block)
    (c : Committed) (st : BlockState) : Prop where
  body : executeBody E block db vs (seededView db block) = .ok st
  root : st.view.stateRootWithDb (new db) = .ok c.block.header.stateRoot
  state : c.db.state = insertAll db.state st.view.diffs.accounts.entries
  code : c.db.code = db.code
  trieNodes : c.db.trieNodes = db.trieNodes

theorem persist_spec (db : ZbxDb) (block : Block) (exec : ExecutionResult) :
    let db' := persist db (new db) block exec
    db'.state = insertAll db.state exec.stateDiff.accounts.entries ∧ db'.code = db.code ∧
      db'.trieNodes = db.trieNodes := by
  unfold persist flushStaking
  rw [putAccounts_eq]
  split <;> exact ⟨rfl, rfl, rfl⟩

theorem executeAndCommit_exec (h : executeAndCommit E db vs block = .ok c) :
    ∃ exec, executeBlock E block db vs (new db) (seededView db block) = .ok exec ∧
      c.block = { block with header := patchHeader block.header exec } ∧
      c.db = persist db (new db) c.block exec := by
  unfold executeAndCommit at h
  dsimp only at h
  split at h
  · cases h
  · cases h
  rename_i exec hexec
  split at h
  · cases h
  cases h
  exact ⟨exec, hexec, rfl, rfl⟩

theorem executeAndCommit_ok (h : executeAndCommit E db vs block = .ok c) :
    ∃ st, CommitSpec E db vs block c st := by
  obtain ⟨exec, hexec, hblock, hdb⟩ := executeAndCommit_exec h
  obtain ⟨st, root, hbody, hroot, rfl⟩ := executeBlock_ok hexec
  obtain ⟨hstate, hcode, hnodes⟩ := persist_spec db c.block
    ⟨st.receipts, st.view.diffs, st.cumulativeGas, root, st.delta, st.vs⟩
  exact ⟨st, hbody, by rw [hroot, hblock]; rfl, hdb ▸ hstate, hdb ▸ hcode, hdb ▸ hnodes⟩

end ZbxChain.BlockProducer

/-!
## What the next block reads

A commit writes the account records of the state diff and nothing else of it: no slot, no code and
no deletion.
-/

namespace ZbxChain.BlockProducer

open StateView

variable {E : Engines} {db : ZbxDb} {vs : Option ValidatorSet} {block next : Block}
  {c : Committed} {st : BlockState} {addr : Address}

/-! ## Reading a seeded view -/

variable (db block addr) in
theorem getStorage_seededView (slot : H256) : (seededView db block).getStorage addr slot = 0 := by
  unfold getStorage seededView
  rw [(seeded_seeding db block).diffs]
  rfl

theorem getCode_seededView (h : addr ∈ (seeding db block).seen) :
    (seededView db block).getCode addr =
      if (db.getAccount addr).isContract then db.getCode (db.getAccount addr).codeHash else [] := by
  unfold getCode
  rw [getAccount_seededView h]
  dsimp only
  split
  · rename_i hcontract
    show ((seeding db block).view.codes.lookup _).getD [] = _
    rw [(seeded_seeding db block).code_seen addr h hcontract]
    rfl
  · rfl

theorem tidy_seededView (db : ZbxDb) (block : Block) : Tidy (seededView db block) := by
  intro addr haddr
  unfold seededView at haddr
  rw [(seeded_seeding db block).toDelete] at haddr
  exact absurd haddr (Finset.notMem_empty addr)

/-! ## Reading what was committed -/

theorem CommitSpec.tidy (h : CommitSpec E db vs block c st) : Tidy st.view :=
  (executeBody_reaches h.body).tidy (tidy_seededView db block)

theorem CommitSpec.getAccount (h : CommitSpec E db vs block c st) (addr : Address) :
    c.db.getAccount addr = (st.view.diffs.accounts.lookup addr).getD (db.getAccount addr) := by
  unfold ZbxDb.getAccount
  rw [h.state, FiniteMap.lookup_insertAll_entries]
  cases st.view.diffs.accounts.lookup addr <;> rfl

theorem getAccount_of_lookup {view : StateView} {acct : AccountState} (hview : Tidy view)
    (h : view.diffs.accounts.lookup addr = some acct) : view.getAccount addr = acct := by
  have hlive : addr ∉ view.toDelete := by
    intro hdel
    rw [hview addr hdel] at h
    cases h
  unfold StateView.getAccount record
  rw [if_neg hlive, h]
  rfl

theorem CommitSpec.getCode {acct : AccountState} (h : CommitSpec E db vs block c st)
    (hseen : addr ∈ (seeding c.db next).seen)
    (hacct : st.view.diffs.accounts.lookup addr = some acct) : (seededView c.db next).getCode addr =
      if acct.isContract then db.getCode acct.codeHash else [] := by
  rw [getCode_seededView hseen, h.getAccount, hacct]
  unfold ZbxDb.getCode
  rw [h.code]
  rfl

theorem next_block_reads (h : executeAndCommit E db vs block = .ok c) :
    ∃ st, executeBody E block db vs (seededView db block) = .ok st ∧
      ∀ next : Block, ∀ tx ∈ next.transactions, ∀ addr, tx.tx.dest = some addr →
        (∀ slot, (seededView c.db next).getStorage addr slot = st.view.getStorage addr slot ↔
          st.view.getStorage addr slot = 0) ∧
        (∀ acct, st.view.diffs.accounts.lookup addr = some acct →
          ((seededView c.db next).getCode addr = st.view.getCode addr ↔
            acct.isContract = false ∨ db.getCode acct.codeHash = st.view.getCode addr)) ∧
        (addr ∈ st.view.toDelete → ((seededView c.db next).getAccount addr = .default ↔
            db.getAccount addr = .default)) := by
  obtain ⟨st, hst⟩ := executeAndCommit_ok h
  refine ⟨st, hst.body, fun next tx htx addr hdest => ?_⟩
  have hseen : addr ∈ (seeding c.db next).seen := mem_seen_of_mem htx (.inr hdest)
  refine ⟨fun slot => ?_, fun acct hacct => ?_, fun hdel => ?_⟩
  · rw [getStorage_seededView]
    exact eq_comm
  · rw [hst.getCode hseen hacct]
    have hget := getAccount_of_lookup hst.tidy hacct
    by_cases hcontract : acct.isContract = true
    · simp [hcontract]
    · simp [StateView.getCode, hget, hcontract]
  · rw [getAccount_seededView hseen, hst.getAccount, hst.tidy addr hdel]
    rfl

def storeSeven : Bytes := [0x60, 7, 0x60, 1, 0x55]

def storeSevenAddr : Address := createTxAddress 0xa1 0

def storeBlock : Block := .first [.basic 0xa1 0 none 0 (0x5a :: storeSeven)]

def callBlock : Block :=
  ⟨{ storeBlock.header with number := 2 }, [.basic 0xa1 1 (some storeSevenAddr) 0 []]⟩

def clearBlock : Block :=
  .first [.basic 0xa1 0 none 0 (0x5a :: storeSeven ++ [0x60, 0, 0x60, 1, 0x55])]

def slotWritten (st : BlockState) (slot : H256) : Option H256 :=
  (st.view.diffs.storage.lookup storeSevenAddr).bind (·.lookup slot)

/-- A slot that was left at zero is read as it was left. -/
theorem next_block_reads_zero : ∃ c st, executeAndCommit .idle fundedDb none clearBlock = .ok c ∧
    executeBody .idle clearBlock fundedDb none (seededView fundedDb clearBlock) = .ok st ∧
    slotWritten st 1 = some 0 ∧ (seededView c.db callBlock).getStorage storeSevenAddr 1 =
      st.view.getStorage storeSevenAddr 1 := by
  obtain ⟨c, st, hc, hst, hwritten, hslot⟩ : ∃ c st,
      executeAndCommit .idle fundedDb none clearBlock = .ok c ∧
      executeBody .idle clearBlock fundedDb none (seededView fundedDb clearBlock) = .ok st ∧
      slotWritten st 1 = some 0 ∧ st.view.getStorage storeSevenAddr 1 = 0 := by decide +kernel
  obtain ⟨st', hst', hreads⟩ := next_block_reads hc
  cases hst.symm.trans hst'
  have hcall := hreads callBlock _ (List.mem_singleton.mpr rfl) storeSevenAddr rfl
  exact ⟨c, st, hc, hst, hwritten, (hcall.1 1).mpr hslot⟩

/-- The slot and the code of a new contract are gone in the next block. -/
theorem storeSeven_not_read : ∃ c st, executeAndCommit .idle fundedDb none storeBlock = .ok c ∧
    executeBody .idle storeBlock fundedDb none (seededView fundedDb storeBlock) = .ok st ∧
    st.receipts.map (·.success) = [true] ∧ st.view.getStorage storeSevenAddr 1 = 7 ∧
    (seededView c.db callBlock).getStorage storeSevenAddr 1 = 0 ∧
    st.view.getCode storeSevenAddr = storeSeven ∧
    (seededView c.db callBlock).getCode storeSevenAddr = [] := by
  decide +kernel

end ZbxChain.BlockProducer
