import ZbxChain.Execution.SameRun
import ZbxChain.Node.Commit

/-!
# The seeded view against all of storage

A block is executed on a view that holds its senders, its recipients and the coinbase. It runs as
on a view of all of storage when every other account that it looks at has no stored record
(`seeded_run_eq_full`).
-/

namespace ZbxChain.BlockProducer

open StateView FiniteMap

variable {E : Engines} {db : ZbxDb} {vs : Option ValidatorSet} {block : Block}

/-! ## All of storage -/

def fullSeeding (db : ZbxDb) : Seeding := db.state.keys.foldl (seed db) ⟨.new, ∅⟩

def fullView (db : ZbxDb) : StateView := (fullSeeding db).view

theorem Seeded.foldl_seed {s : Seeding} (h : Seeded db s) (addrs : List Address) :
    Seeded db (addrs.foldl (BlockProducer.seed db) s) := by
  induction addrs generalizing s with
  | nil => exact h
  | cons addr rest ih => exact ih (h.seed addr)

theorem seeded_fullSeeding (db : ZbxDb) : Seeded db (fullSeeding db) :=
  seeded_new.foldl_seed _

theorem mem_seen_foldl_seed {addr : Address} (addrs : List Address) (s : Seeding) :
    addr ∈ (addrs.foldl (seed db) s).seen ↔ addr ∈ s.seen ∨ addr ∈ addrs := by
  induction addrs generalizing s with
  | nil => simp
  | cons a rest ih =>
    rw [List.foldl_cons, ih, seen_seed, Finset.mem_insert, List.mem_cons]
    tauto

theorem mem_seen_fullSeeding {addr : Address} :
    addr ∈ (fullSeeding db).seen ↔ (db.state.lookup addr).isSome = true := by
  unfold fullSeeding
  rw [mem_seen_foldl_seed, AList.lookup_isSome]
  simp [AList.mem_keys]

theorem base_fullView (db : ZbxDb) (addr : Address) :
    ((fullView db).base.lookup addr).getD .default = db.getAccount addr := by
  have hs := seeded_fullSeeding db
  unfold fullView
  by_cases hseen : addr ∈ (fullSeeding db).seen
  · rw [hs.base_seen addr hseen]
    rfl
  rw [hs.base_unseen addr hseen]
  have hnone : db.state.lookup addr = none := by
    rw [mem_seen_fullSeeding] at hseen
    exact Option.not_isSome_iff_eq_none.mp hseen
  unfold ZbxDb.getAccount
  rw [hnone]

/-! ## The accounts that are seeded right -/

def Loaded (db : ZbxDb) (block : Block) (addr : Address) : Prop :=
  addr ∈ (seeding db block).seen ∨ db.getAccount addr = .default

instance (db : ZbxDb) (block : Block) (addr : Address) : Decidable (Loaded db block addr) :=
  inferInstanceAs (Decidable (_ ∨ _))

theorem base_seededView {addr : Address} (h : Loaded db block addr) :
    ((seededView db block).base.lookup addr).getD .default = db.getAccount addr := by
  have hs := seeded_seeding db block
  unfold seededView
  by_cases hseen : addr ∈ (seeding db block).seen
  · rw [hs.base_seen addr hseen]
    rfl
  · rw [hs.base_unseen addr hseen]
    exact (h.resolve_left hseen).symm

theorem agree_seededView_fullView (db : ZbxDb) (block : Block) :
    Agree (Loaded db block) (seededView db block) (fullView db) := by
  have hs := seeded_seeding db block
  have hf := seeded_fullSeeding db
  refine ⟨hs.diffs.trans hf.diffs.symm, hs.toDelete.trans hf.toDelete.symm, ?_, ?_⟩
  · intro addr haddr
    rw [base_seededView haddr, base_fullView]
  intro addr haddr hcontract
  have hacct : (seededView db block).getAccount addr = db.getAccount addr := by
    unfold StateView.getAccount record
    rw [base_seededView haddr]
    unfold seededView
    rw [hs.toDelete, hs.diffs]
    simp
  rw [hacct] at hcontract ⊢
  have hne : db.getAccount addr ≠ .default := by
    intro hdefault
    rw [hdefault] at hcontract
    cases hcontract
  have hfull : addr ∈ (fullSeeding db).seen := by
    rw [mem_seen_fullSeeding, Option.isSome_iff_ne_none]
    intro hnone
    exact hne (by rw [ZbxDb.getAccount, hnone]; rfl)
  unfold seededView fullView
  rw [hs.code_seen addr (haddr.resolve_right hne) hcontract, hf.code_seen addr hfull hcontract]

theorem named_loaded {tx : SignedTransaction} (htx : tx ∈ block.transactions) :
    Named (Loaded db block) tx :=
  ⟨.inl (mem_seen_of_mem htx (.inl rfl)), fun _ hdest => .inl (mem_seen_of_mem htx (.inr hdest))⟩

/-- The accounts that a block looks at when it is executed, besides those it names. -/
def touchedBy (E : Engines) (db : ZbxDb) (vs : Option ValidatorSet) (block : Block) :
    List Address :=
  blockTouched E block.header db (.start (seededView db block) vs) block.transactions

def leftBy (st : BlockState) :
    StateDiff × List TransactionReceipt × StakingDelta × Option ValidatorSet :=
  (st.view.diffs, st.receipts, st.delta, st.vs)

theorem seeded_run_eq_full (htouched : ∀ addr ∈ touchedBy E db vs block, Loaded db block addr) :
    (executeBody E block db vs (seededView db block)).map leftBy =
        (executeBody E block db vs (fullView db)).map leftBy ∧
      ∀ c, executeAndCommit E db vs block = .ok c →
        ∃ st, executeBody E block db vs (fullView db) = .ok st ∧
          c.db.state = insertAll db.state st.view.diffs.accounts.entries := by
  have hrun : Alike (SameBlock (Loaded db block)) (executeBody E block db vs (seededView db block))
      (executeBody E block db vs (fullView db)) :=
    executeBody_agree (agree_seededView_fullView db block) (fun tx htx => named_loaded htx)
      (.inl (coinbase_mem_seen db block)) htouched
  refine ⟨hrun.map_eq fun st st' h => ?_, fun c hc => ?_⟩
  · unfold leftBy
    rw [h.view.diffs, h.receipts, h.delta, h.vs]
  obtain ⟨st, hst⟩ := executeAndCommit_ok hc
  rw [hst.body] at hrun
  generalize executeBody E block db vs (fullView db) = full at hrun ⊢
  cases hrun with
  | ok h => exact ⟨_, rfl, by rw [hst.state, h.view.diffs]⟩

/-- `0xa1` can pay for gas, `0xc1` runs `code`, and `0xdddd` is in use. -/
def contractDb (code : Bytes) : ZbxDb :=
  let db := (fundedDb.putAccount 0xc1
    { AccountState.default with balance := 10, codeHash := keccak256 code, vm := .zvm }).putAccount
      0xdddd { AccountState.default with nonce := 5, balance := 100 }
  { db with code := db.code.insert (keccak256 code) code }

def lookCode : Bytes := [0x61, 0xdd, 0xdd, 0x31]

def lookBlock : Block :=
  .first [.basic 0xa1 0 (some 0xdddd) 0 [], .basic 0xa1 1 (some 0xc1) 0 []]

theorem seeded_run_eq_full_look : touchedBy .idle (contractDb lookCode) none lookBlock = [0xdddd] ∧
    (executeBody .idle lookBlock (contractDb lookCode) none
        (seededView (contractDb lookCode) lookBlock)).map leftBy =
      (executeBody .idle lookBlock (contractDb lookCode) none
        (fullView (contractDb lookCode))).map leftBy := by
  have hlook : touchedBy .idle (contractDb lookCode) none lookBlock = [0xdddd] := by
    decide +kernel
  have htouched : ∀ addr ∈ touchedBy .idle (contractDb lookCode) none lookBlock,
      Loaded (contractDb lookCode) lookBlock addr := by
    rw [hlook]
    exact List.forall_mem_singleton.mpr (by decide +kernel)
  exact ⟨hlook, (seeded_run_eq_full htouched).1⟩

/-- `CALL` of `0xdddd` with a value of 1. -/
def payCode : Bytes :=
  [0x60, 0, 0x60, 0, 0x60, 0, 0x60, 0, 0x60, 1, 0x61, 0xdd, 0xdd, 0x61, 0x27, 0x10, 0xf1]

def payBlock : Block := .first [.basic 0xa1 0 (some 0xc1) 0 []]

/-- The record of `0xdddd`, which is not loaded, is replaced by a fresh one. -/
theorem call_resets_account : ∃ c st,
    executeAndCommit .idle (contractDb payCode) none payBlock = .ok c ∧
    executeBody .idle payBlock (contractDb payCode) none (fullView (contractDb payCode)) = .ok st ∧
    c.db.getAccount 0xdddd = { AccountState.default with balance := 1 } ∧
    st.view.diffs.accounts.lookup 0xdddd =
      some { AccountState.default with nonce := 5, balance := 101 } := by
  decide +kernel

end ZbxChain.BlockProducer
